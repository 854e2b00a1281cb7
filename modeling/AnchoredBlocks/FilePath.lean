-- Paths as they are written, and locations as they are found. A path is a
-- text, and two texts may lead to one place. A location is that place: the
-- names from the root of the file tree, without links, dots or empty names.

namespace AnchoredBlocks

/-! ## Paths -/

/-- A path as it is written. -/
structure Path where
  text : String
  deriving DecidableEq, Repr, Inhabited

namespace Path

/-- A path that begins at the root of the file tree. -/
def isAbsolute (p : Path) : Bool := p.text.startsWith "/"

/-- The runs of characters between slashes. -/
def splitSlashes : List Char → List (List Char)
  | [] => [[]]
  | c :: rest =>
    if c = '/' then [] :: splitSlashes rest
    else
      match splitSlashes rest with
      | [] => [[c]]
      | run :: runs => (c :: run) :: runs

/-- The parts between the slashes. A slash at an end of the path has an empty part on its
outer side. -/
def parts (p : Path) : List String := (splitSlashes p.text.toList).map String.ofList

/-- A path seen from a directory. An absolute path stands for itself. -/
def join (directory p : Path) : Path :=
  if p.isAbsolute then p
  else if directory.text.isEmpty || directory.text.endsWith "/" then
    ⟨directory.text ++ p.text⟩
  else ⟨directory.text ++ "/" ++ p.text⟩

/-- A part that leads nowhere: an empty one, or a dot. -/
def isIdle (part : String) : Bool := part.isEmpty || part = "."

/-- The path of some parts. An empty part alone is the root. -/
def ofParts : List String → Path
  | [""] => ⟨"/"⟩
  | parts => ⟨"/".intercalate parts⟩

/-- The path without its last name, and without the idle parts around that name. A dot at
the head of a path is a name. The root and the empty path have no name. -/
def parent? (p : Path) : Option Path :=
  match p.parts with
  | [] => none
  | head :: tail =>
    match tail.reverse.dropWhile isIdle with
    | _ :: before => some (ofParts (head :: (before.dropWhile isIdle).reverse))
    | [] => if head.isEmpty then none else some ⟨""⟩

/-- The paths above a path, the nearest first, at most `n` of them. -/
def ancestors (n : Nat) (p : Path) : List Path :=
  match n, p.parent? with
  | n + 1, some above => above :: above.ancestors n
  | _, _ => []

/-- The parts before the last name, and that name. Slashes after it do not matter. -/
def lastName? (p : Path) : Option (List String × String) :=
  match p.parts.reverse.dropWhile String.isEmpty with
  | last :: before => some (before.reverse, last)
  | [] => none

/-- A slash stands at the end of the path. -/
def endsInSlash (p : Path) : Bool := p.text.endsWith "/"

end Path

/-! ## Locations -/

/-- A place in the file tree by the names that lead to it from the root. -/
structure Location where
  names : List String
  deriving DecidableEq, Repr, Inhabited

namespace Location

def root : Location := ⟨[]⟩

/-- The directory that holds the place. The root holds itself. -/
def parent (l : Location) : Location := ⟨l.names.dropLast⟩

/-- A name within a directory. -/
def child (l : Location) (name : String) : Location := ⟨l.names ++ [name]⟩

/-- The path of a location. -/
def path (l : Location) : Path := ⟨"/" ++ "/".intercalate l.names⟩

/-- The place is `directory` or lies below it. Whole names count, so `/ws2` is not
below `/ws`. -/
def Within (l directory : Location) : Prop := directory.names <+: l.names

instance (l directory : Location) : Decidable (l.Within directory) := by
  unfold Within; infer_instance

end Location

end AnchoredBlocks
