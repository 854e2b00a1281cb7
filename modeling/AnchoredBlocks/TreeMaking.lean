-- Making a file tree and seeing what has changed in it. Directories come to be
-- where a path needs them, and a file is written through the link at its name.
import AnchoredBlocks.FileTree

namespace AnchoredBlocks

/-- A tree after some steps, the last of which may have been refused. The steps before it
stay done. -/
structure Attempt where
  tree : FileTree
  refusal : Option Refusal := none

namespace Attempt

/-- One step from a tree. -/
def one (t : FileTree) : Except Refusal FileTree → Attempt
  | .ok tree => { tree }
  | .error refusal => { tree := t, refusal := some refusal }

/-- Goes on unless a step was refused. -/
def andThen (a : Attempt) (next : FileTree → Attempt) : Attempt :=
  if a.refusal.isSome then a else next a.tree

end Attempt

namespace FileTree

/-- The permission bits of a file that nobody asked more of. -/
def ordinaryMode : Nat := 0o644

/-! ## Directories -/

/-- The path leads to a directory. -/
def isDirectory (t : FileTree) (p : Path) : Bool :=
  match t.reach p with
  | .error _ => false
  | .ok l =>
    match t.entry? l with
    | some (.directory _) => true
    | _ => false

/-- Makes one directory. What stands for a directory already cannot be made. -/
def makeDirectory (t : FileTree) (p : Path) : Except Refusal FileTree :=
  match t.nameOf p with
  | .error .isADirectory => .error .alreadyThere
  | .error refusal => .error refusal
  | .ok name =>
    if (t.entry? name).isSome then .error .alreadyThere else .ok (t.put name .plainDirectory)

/-- A refusal to make a directory does not matter where there is one. -/
def orThere (t : FileTree) (p : Path) : Except Refusal FileTree → Attempt
  | .ok tree => { tree }
  | .error refusal =>
    if t.isDirectory p then { tree := t } else { tree := t, refusal := some refusal }

/-- Makes a directory, and before it those above it as far as they are missing. The list
goes from the directory upward. The empty path is there already. -/
def makeUpward (t : FileTree) : List Path → Attempt
  | [] => { tree := t }
  | p :: above =>
    if p.text.isEmpty then { tree := t }
    else
      match t.makeDirectory p with
      | .error .notFound => (t.makeUpward above).andThen fun t => t.orThere p (t.makeDirectory p)
      | made => t.orThere p made

/-- Makes the directories that lead to a path, and the path itself a directory. -/
def makeDirectories (t : FileTree) (p : Path) : Attempt :=
  t.makeUpward (p :: p.ancestors p.parts.length)

/-- Makes the directories above a path. -/
def makeParents (t : FileTree) (p : Path) : Attempt :=
  match p.parent? with
  | some above => t.makeDirectories above
  | none => { tree := t }

/-! ## Files and links -/

/-- Writes a file in a directory that is there. The way to the directory and the links at
the name lead through at most `links` links together. The file that a path leads to keeps
its permission bits. A slash after the name asks for a directory, and that is seen before
the name is. -/
def fillFrom (t : FileTree) (content : Bytes) (links : Nat) (start : Location) (p : Path) :
    Except Refusal FileTree :=
  match reached : t.placeFrom links start p with
  | .error refusal => .error refusal
  | .ok place =>
    if p.endsInSlash then .error .isADirectory
    else
      match fitting place.location with
      | .error refusal => .error refusal
      | .ok name =>
        have := placeFrom_linksLeft_le t links start p place reached
        match t.entry? name, _ : place.linksLeft with
        | some (.directory _), _ => .error .isADirectory
        | some (.file _ mode), _ => .ok (t.put name (.file content mode))
        | some (.link _), 0 => .error .tooManyLinks
        | some (.link target), more + 1 =>
          t.fillFrom content more (if target.isAbsolute then .root else name.parent) target
        | none, _ => .ok (t.put name (.file content ordinaryMode))
termination_by links
decreasing_by omega

/-- Writes a file in a directory that is there. The path is handed over as a whole. -/
def fillFile (t : FileTree) (p : Path) (content : Bytes) : Except Refusal FileTree :=
  match unusable? p with
  | some refusal => .error refusal
  | none =>
    if pathLimit ≤ p.text.utf8ByteSize then .error .nameTooLong
    else t.fillFrom content linkLimit (t.startOf p) p

/-- Writes a file, and makes the directories above it. -/
def writeFile (t : FileTree) (p : Path) (content : Bytes) : Attempt :=
  (t.makeParents p).andThen fun t => .one t (t.fillFile p content)

/-- A target that no link can have. -/
def unusableTarget? (target : Path) : Option Refusal :=
  match unusable? target with
  | some refusal => some refusal
  | none => if pathLimit ≤ target.text.utf8ByteSize then some .nameTooLong else none

/-- Puts a link at a name that is free. The target is looked at before the name, and only
for its own form. A path with a null character is no path at all and comes first. -/
def placeLink (t : FileTree) (p target : Path) : Except Refusal FileTree :=
  if p.text.contains '\x00' then .error .nulInName
  else
    match unusableTarget? target, t.nameOf p with
    | some refusal, _ => .error refusal
    | none, .error .isADirectory => .error .alreadyThere
    | none, .error refusal => .error refusal
    | none, .ok name =>
      if (t.entry? name).isSome then .error .alreadyThere
      else if p.endsInSlash then .error .notFound
      else .ok (t.put name (.link target))

/-- Makes a link, and the directories above it. -/
def makeLink (t : FileTree) (p target : Path) : Attempt :=
  (t.makeParents p).andThen fun t => .one t (t.placeLink p target)

/-- Gives what a path leads to other permission bits. -/
def setMode (t : FileTree) (p : Path) (mode : Nat) : Except Refusal FileTree := do
  let l ← t.reach p
  match t.entry? l with
  | some e => .ok (t.put l (e.withMode mode))
  | none => .ok t

/-- Removes the file or the link at the name of a path. A slash after the name asks for a
directory. -/
def remove (t : FileTree) (p : Path) : Except Refusal FileTree := do
  let name ← t.nameOf p
  match t.entry? name with
  | none => .error .notFound
  | some (.directory _) => .error .isADirectory
  | some _ => if p.endsInSlash then .error .notADirectory else .ok (t.erase name)

/-- Makes another directory the current one. -/
def enter (t : FileTree) (p : Path) : Except Refusal FileTree := do
  let l ← t.reach p
  match t.entry? l with
  | some (.directory _) => .ok { t with current := l }
  | some _ => .error .notADirectory
  | none => .error .notFound

/-! ## Differences -/

/-- An entry without its permission bits, and directories left out. -/
def contentAt? (t : FileTree) (l : Location) : Option Entry :=
  match t.entry? l with
  | some (.file content _) => some (.file content 0)
  | some (.link target) => some (.link target)
  | _ => none

/-- The places where the content of two trees differs. -/
def changedPlaces (before after : FileTree) : List Location :=
  ((before.entries ++ after.entries).map (·.1)).eraseDups.filter fun l =>
    before.contentAt? l ≠ after.contentAt? l

end FileTree

end AnchoredBlocks
