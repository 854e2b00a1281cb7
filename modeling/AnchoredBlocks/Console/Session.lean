-- One run of the program on a file tree. The run is a value: an exit code,
-- what is printed, and the tree that is left.
import AnchoredBlocks.Console.Arguments
import AnchoredBlocks.Console.Log
import AnchoredBlocks.Console.Report

namespace AnchoredBlocks.Console

/-! ## Runs -/

/-- What a run leaves behind. -/
structure Run where
  code : Nat
  printed : String := ""
  complained : String := ""
  tree : FileTree
  deriving Repr

/-- The run went well. -/
def Run.success (t : FileTree) (printed : String) : Run := { code := 0, printed, tree := t }

/-- The run failed and left the tree as it was. -/
def Run.failure (t : FileTree) (printed complained : String) : Run :=
  { code := 1, printed, complained, tree := t }

/-- The words do not fit the program. -/
def Run.misuse (t : FileTree) : Run :=
  { code := 2, complained := "error: the arguments do not fit\n", tree := t }

/-- A run that says more before it complains. -/
def Run.after (log : String) (r : Run) : Run := { r with complained := log ++ r.complained }

/-! ## Commands -/

/-- The definition of a command: from its patch file, or from its words. A command without
a replacement has only its target judged. -/
def definitionOfBy (read : Definition.Reader) (t : FileTree) (target : TargetArguments)
    (replacement : Option ReplacementArguments) : Except String Definition :=
  match target.patch with
  | some path =>
    match Definition.loadBy read t ⟨path⟩ with
    | .error failure => .error (errorText failure.message [failure.cause])
    | .ok d => .ok { d with onlyAnchor := d.onlyAnchor || target.uniqueAnchor }
  | none =>
    let markers : Markers :=
      ⟨target.anchor.getD "", target.start.getD "", target.stop.getD ""⟩
    let fresh : Replacement :=
      match replacement with
      | some r => ⟨r.text, r.file⟩
      | none => {}
    let d : Definition :=
      { Definition.inline (target.file.getD "") markers fresh with
        onlyAnchor := target.uniqueAnchor }
    let verdict := if replacement.isSome then d.check else d.checkTarget
    match verdict with
    | .error faults => .error (errorText ("invalid arguments:\n" ++ faults.message) [])
    | .ok () => .ok d

/-- The definition of a command, its patch file read the way the program reads them. -/
def definitionOf : FileTree → TargetArguments → Option ReplacementArguments →
    Except String Definition :=
  definitionOfBy Definition.ownReader

/-- Plans a patch, shows it if wanted, and carries it out unless the run is dry. -/
def applyRun (colours : Bool) (verbosity : Nat) (t : FileTree) (w : Workspace) (d : Definition)
    (dryRun diff : Bool) : Run :=
  Run.after (logText verbosity (planLog d t w)) <|
    match d.plan t w with
    | .error failure => .failure t "" (failureText colours t d failure)
    | .ok p =>
      if p.isDone then .success t (alreadyLine colours d p.file)
      else
        let shown := if diff then diffText colours p else ""
        if dryRun then .success t (shown ++ dryRunLines colours d p)
        else
          match p.carryOut t with
          | .error failure => .failure t shown (failureText colours t d failure)
          | .ok (outcome, tree) =>
            let told := match outcome with
              | .alreadyApplied file => alreadyLine colours d file
              | outcome => appliedLine colours d p outcome.file
            Run.after (logText verbosity (carryOutLog p t)) (.success tree (shown ++ told))

/-- Plans a patch and tells whether it is made. -/
def checkRun (colours : Bool) (verbosity : Nat) (t : FileTree) (w : Workspace)
    (d : Definition) : Run :=
  Run.after (logText verbosity (planLog d t w)) <|
    match d.plan t w with
    | .error failure => .failure t "" (failureText colours t d failure)
    | .ok p => .success t (checkLine colours d p)

/-- Shows the block. -/
def extractRun (colours : Bool) (verbosity : Nat) (t : FileTree) (w : Workspace)
    (d : Definition) : Run :=
  Run.after (logText verbosity (extractLog d t w)) <|
    match d.foundBlock t w with
    | .error failure => .failure t "" (failureText colours t d failure)
    | .ok found => .success t (line (Utf8.string found.block))

/-! ## The program -/

/-- The workspace of a command line: the current directory, unless one is given. -/
def workspaceOf (t : FileTree) : Option String → Except String Workspace
  | none =>
    match t.currentPath? with
    | some current => .ok (.free current)
    | none => .error (errorText Refusal.notFound.message [])
  | some root =>
    match Workspace.fenced t ⟨root⟩ with
    | .ok w => .ok w
    | .error failure =>
      let causes := match failure with
        | .unresolved _ refusal => [failure.message, refusal.message]
        | _ => [failure.message]
      .error (errorText ("invalid workspace " ++ root) causes)

/-- The target and the replacement of a command, as far as it has them. -/
def Command.parts : Command → TargetArguments × Option ReplacementArguments
  | .apply target replacement _ _ => (target, some replacement)
  | .check target replacement => (target, some replacement)
  | .extract target => (target, none)

/-- Runs a command line. Only errors are logged where the run is to be quiet. -/
def CommandLine.run (c : CommandLine) (colours : Bool) (t : FileTree) : Run :=
  let verbosity := if c.quiet then 0 else c.verbosity
  match workspaceOf t c.workspace with
  | .error complaint => .failure t "" complaint
  | .ok w =>
    match definitionOf t c.command.parts.1 c.command.parts.2 with
    | .error complaint => .failure t "" complaint
    | .ok d =>
      match c.command with
      | .apply _ _ dryRun diff => applyRun colours verbosity t w d dryRun diff
      | .check .. => checkRun colours verbosity t w d
      | .extract _ => extractRun colours verbosity t w d

/-- What the program calls itself. -/
def versionText : String := "block-patcher 0.1.0\n"

/-- Runs the program on its words. -/
def session (words : List String) (colours : Bool) (t : FileTree) : Run :=
  match request? words with
  | none => .misuse t
  | some .version => .success t versionText
  | some (.run c) => c.run colours t

end AnchoredBlocks.Console
