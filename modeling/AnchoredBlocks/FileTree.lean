-- The file tree as a value. A path is followed name by name, through the
-- links on its way, to one location. Reading leaves the tree as it is, and
-- putting a file in place changes one entry.
import AnchoredBlocks.FilePath
import AnchoredBlocks.Utf8

namespace AnchoredBlocks

/-! ## Entries -/

/-- What a name in a directory stands for. A link has no permission bits of its own. -/
inductive Entry where
  | directory (mode : Nat)
  | file (content : Bytes) (mode : Nat)
  | link (target : Path)
  deriving DecidableEq, Repr

namespace Entry

/-- A directory that nobody asked more of. -/
def plainDirectory : Entry := .directory 0o755

/-- The permission bits. -/
def mode? : Entry → Option Nat
  | .directory mode => some mode
  | .file _ mode => some mode
  | .link _ => none

/-- The entry with other permission bits. -/
def withMode (mode : Nat) : Entry → Entry
  | .directory _ => .directory mode
  | .file content _ => .file content mode
  | .link target => .link target

end Entry

/-- Why the tree refuses. -/
inductive Refusal where
  | notFound
  | notADirectory
  | isADirectory
  | alreadyThere
  | tooManyLinks
  | nameTooLong
  | nulInName
  | notUtf8
  deriving DecidableEq, Repr

def Refusal.message : Refusal → String
  | .notFound => "No such file or directory (os error 2)"
  | .notADirectory => "Not a directory (os error 20)"
  | .isADirectory => "Is a directory (os error 21)"
  | .alreadyThere => "File exists (os error 17)"
  | .nameTooLong => "File name too long (os error 36)"
  | .tooManyLinks => "Too many levels of symbolic links (os error 40)"
  | .nulInName => "file name contained an unexpected NUL byte"
  | .notUtf8 => "stream did not contain valid UTF-8"

/-- The entries by their locations, and the current directory. -/
structure FileTree where
  entries : List (Location × Entry) := []
  current : Location := .root
  deriving Repr

namespace FileTree

/-- The entry at a location. The root is always a directory. -/
def entry? (t : FileTree) (l : Location) : Option Entry :=
  if l.names.isEmpty then some .plainDirectory else t.entries.lookup l

/-- The tree with another entry at a location. -/
def put (t : FileTree) (l : Location) (e : Entry) : FileTree :=
  { t with entries := (l, e) :: t.entries.filter fun x => x.1 ≠ l }

/-- The tree without the entry at a location. -/
def erase (t : FileTree) (l : Location) : FileTree :=
  { t with entries := t.entries.filter fun x => x.1 ≠ l }

/-! ## Following a path -/

/-- How many links a path may lead through. -/
def linkLimit : Nat := 40

/-- The most bytes that a name in a directory has. -/
def nameLimit : Nat := 255

/-- A path that is handed over as a whole has fewer bytes. -/
def pathLimit : Nat := 4096

/-- A location on the way, and how many links the rest of the way may lead through. -/
structure Arrival where
  location : Location
  linksLeft : Nat
  deriving DecidableEq, Repr

/-- Follows parts from a location that is no link, through at most `links` links. Every part
needs a directory to stand in. A link in the way is replaced by the parts of its target. -/
def follow (t : FileTree) (links : Nat) (l : Location) (parts : List String) :
    Except Refusal Arrival :=
  match parts with
  | [] => .ok ⟨l, links⟩
  | part :: rest =>
    match t.entry? l with
    | some (.directory _) =>
      if Path.isIdle part then t.follow links l rest
      else if part = ".." then t.follow links l.parent rest
      else if nameLimit < part.utf8ByteSize then .error .nameTooLong
      else
        match t.entry? (l.child part) with
        | none => .error .notFound
        | some (.link target) =>
          match links with
          | 0 => .error .tooManyLinks
          | left + 1 =>
            t.follow left (if target.isAbsolute then .root else l) (target.parts ++ rest)
        | some _ => t.follow links (l.child part) rest
    | some _ => .error .notADirectory
    | none => .error .notFound
termination_by (links, parts.length)

theorem follow_linksLeft_le (t : FileTree) (links : Nat) (l : Location) (parts : List String)
    (a : Arrival) (h : t.follow links l parts = .ok a) : a.linksLeft ≤ links := by
  fun_induction follow t links l parts <;> grind

/-- Where a path begins. -/
def startOf (t : FileTree) (p : Path) : Location := if p.isAbsolute then .root else t.current

/-- A path that the tree does not even look up. -/
def unusable? (p : Path) : Option Refusal :=
  if p.text.isEmpty then some .notFound
  else if p.text.contains '\x00' then some .nulInName
  else none

/-- The location that a path leads to, links followed to the end. The path is handed over
as a whole. -/
def reach (t : FileTree) (p : Path) : Except Refusal Location :=
  match unusable? p with
  | some refusal => .error refusal
  | none =>
    if pathLimit ≤ p.text.utf8ByteSize then .error .nameTooLong
    else
      match t.follow linkLimit (t.startOf p) p.parts with
      | .error refusal => .error refusal
      | .ok a => .ok a.location

/-! ## Settling a path -/

/-- Why nothing can be looked up from a location: it is no directory. -/
def barrier? (t : FileTree) (l : Location) : Option Refusal :=
  match t.entry? l with
  | some (.directory _) => none
  | some _ => some .notADirectory
  | none => some .notFound

/-- The path of the current directory, unless that was removed. -/
def currentPath? (t : FileTree) : Option Path :=
  match t.barrier? t.current with
  | some _ => none
  | none => some t.current.path

/-- The parts behind a place need a directory there. They lead nowhere or upward, before the
next name if there is one. -/
def needDirectory : List String → Bool
  | [] => false
  | part :: rest =>
    if Path.isIdle part then rest.isEmpty || needDirectory rest else part = ".."

/-- What a name stands for. -/
def entryIn (t : FileTree) (l : Location) (name : String) : Except Refusal Entry :=
  match t.barrier? l with
  | some refusal => .error refusal
  | none =>
    if nameLimit < name.utf8ByteSize then .error .nameTooLong
    else
      match t.entry? (l.child name) with
      | some e => .ok e
      | none => .error .notFound

/-- The path of a location with a slash behind it. -/
def slashed (l : Location) : Path := ⟨l.path.text ++ "/"⟩

/-- What a name stands for, asked for by the whole path of its place. Where a directory is
needed and the place is no link, it is asked for once more, with a slash. -/
def look (t : FileTree) (l : Location) (name : String) (needed : Bool) : Except Refusal Entry :=
  if pathLimit ≤ (l.child name).path.text.utf8ByteSize then .error .nameTooLong
  else
    match t.entryIn l name with
    | .ok (.link target) => .ok (.link target)
    | found =>
      if needed && pathLimit ≤ (slashed (l.child name)).text.utf8ByteSize then
        .error .nameTooLong
      else found

/-- Follows parts one name after another. Each place on the way is asked for by its own path,
so that path has to be short enough to be handed over. -/
def settle (t : FileTree) (links : Nat) (l : Location) (parts : List String) :
    Except Refusal Arrival :=
  match parts with
  | [] => .ok ⟨l, links⟩
  | part :: rest =>
    match needDirectory (part :: rest), t.barrier? l with
    | true, some refusal => .error refusal
    | _, _ =>
      if Path.isIdle part then t.settle links l rest
      else if part = ".." then t.settle links l.parent rest
      else
        match t.look l part (needDirectory rest) with
        | .error refusal => .error refusal
        | .ok (.link target) =>
          match links with
          | 0 => .error .tooManyLinks
          | left + 1 =>
            t.settle left (if target.isAbsolute then .root else l) (target.parts ++ rest)
        | .ok _ => t.settle links (l.child part) rest
termination_by (links, parts.length)

/-- The location that a path leads to, found one name after another from a directory. So the
path may have any length, but the paths of the places on its way may not. -/
def resolve (t : FileTree) (p : Path) : Except Refusal Location :=
  match unusable? p, t.barrier? (t.startOf p) with
  | some refusal, _ => .error refusal
  | none, some refusal => .error refusal
  | none, none => (t.settle linkLimit (t.startOf p) p.parts).map Arrival.location

/-! ## Names -/

/-- The location of a name in the directory that the parts before it lead to. Dots are no
name of their own, they stand for a directory. -/
def placeAfter (t : FileTree) (links : Nat) (start : Location) (before : List String)
    (last : String) : Except Refusal Arrival :=
  match t.follow links start before with
  | .error refusal => .error refusal
  | .ok ⟨directory, left⟩ =>
    match t.entry? directory with
    | some (.directory _) =>
      if last = "." || last = ".." then .error .isADirectory
      else .ok ⟨directory.child last, left⟩
    | some _ => .error .notADirectory
    | none => .error .notFound

/-- The location that a path names from a start: its directory is followed, its last name
is not. -/
def placeFrom (t : FileTree) (links : Nat) (start : Location) (p : Path) :
    Except Refusal Arrival :=
  match p.lastName? with
  | none => .error .isADirectory
  | some (before, last) => t.placeAfter links start before last

theorem placeFrom_linksLeft_le (t : FileTree) (links : Nat) (start : Location) (p : Path)
    (a : Arrival) (h : t.placeFrom links start p = .ok a) : a.linksLeft ≤ links := by
  unfold placeFrom placeAfter at h
  split at h
  · cases h
  · split at h
    · cases h
    · rename_i reached
      have := follow_linksLeft_le _ _ _ _ _ reached
      grind

/-- The place, if a directory can hold its name. -/
def fitting (place : Location) : Except Refusal Location :=
  if nameLimit < (place.names.getLastD "").utf8ByteSize then .error .nameTooLong else .ok place

/-- The location that a path names. The path is handed over as a whole. -/
def nameOf (t : FileTree) (p : Path) : Except Refusal Location :=
  match unusable? p with
  | some refusal => .error refusal
  | none =>
    if pathLimit ≤ p.text.utf8ByteSize then .error .nameTooLong
    else
      match t.placeFrom linkLimit (t.startOf p) p with
      | .error refusal => .error refusal
      | .ok place => fitting place.location

/-! ## Reading -/

/-- The bytes of the file that a path leads to. -/
def read (t : FileTree) (p : Path) : Except Refusal Bytes :=
  match t.reach p with
  | .error refusal => .error refusal
  | .ok l =>
    match t.entry? l with
    | some (.file content _) => .ok content
    | some (.directory _) => .error .isADirectory
    | some (.link _) => .error .tooManyLinks
    | none => .error .notFound

/-- The bytes of the file that a path leads to, if they are UTF-8. -/
def readText (t : FileTree) (p : Path) : Except Refusal Bytes :=
  match t.read p with
  | .error refusal => .error refusal
  | .ok content =>
    match Utf8.decode content with
    | .ok _ => .ok content
    | .error _ => .error .notUtf8

/-- The permission bits of what a path leads to. -/
def mode? (t : FileTree) (p : Path) : Option Nat :=
  match t.reach p with
  | .error _ => none
  | .ok l => (t.entry? l).bind Entry.mode?

/-! ## Putting a file in place -/

/-- The permission bits of a file that only its owner may use. -/
def privateMode : Nat := 0o600

/-- Puts a fresh file at the name of a path. A link at that name gives way to the file,
what the link led to stays. The fresh file takes the permission bits of the file that the
path led to. -/
def replaceFile (t : FileTree) (p : Path) (content : Bytes) : Except Refusal FileTree :=
  match t.nameOf p with
  | .error refusal => .error refusal
  | .ok name =>
    match t.entry? name with
    | some (.directory _) => .error .isADirectory
    | _ => .ok (t.put name (.file content ((t.mode? p).getD privateMode)))

end FileTree

end AnchoredBlocks
