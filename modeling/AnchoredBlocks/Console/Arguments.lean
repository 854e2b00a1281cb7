-- The words of a command line. Options may stand before or after the words
-- that are no options, short ones may be joined, and a value may be joined to
-- its option. Two dashes end the options.

namespace AnchoredBlocks.Console

/-! ## Options -/

/-- The options of the program. -/
inductive Switch where
  | workspace
  | verbose
  | quiet
  | version
  | patch
  | anchor
  | start
  | stop
  | uniqueAnchor
  | replacement
  | replacementFile
  | dryRun
  | diff
  deriving DecidableEq, Repr

/-- What an option takes with it. A path may not be empty. -/
inductive Taking where
  | nothing
  | text
  | path
  deriving DecidableEq, Repr

namespace Switch

def long : Switch → String
  | .workspace => "workspace"
  | .verbose => "verbose"
  | .quiet => "quiet"
  | .version => "version"
  | .patch => "patch"
  | .anchor => "anchor"
  | .start => "start"
  | .stop => "end"
  | .uniqueAnchor => "unique-anchor"
  | .replacement => "replacement"
  | .replacementFile => "replacement-file"
  | .dryRun => "dry-run"
  | .diff => "diff"

def short? : Switch → Option Char
  | .workspace => some 'w'
  | .verbose => some 'v'
  | .quiet => some 'q'
  | .version => some 'V'
  | .patch => some 'p'
  | .dryRun => some 'n'
  | .diff => some 'd'
  | _ => none

def taking : Switch → Taking
  | .workspace => .path
  | .patch => .path
  | .replacementFile => .path
  | .anchor => .text
  | .start => .text
  | .stop => .text
  | .replacement => .text
  | _ => .nothing

/-- An option that may be given more than once. -/
def mayRepeat : Switch → Bool
  | .verbose => true
  | _ => false

end Switch

/-- What the words of a command were found to say. -/
structure Given where
  flags : List Switch := []
  values : List (Switch × String) := []
  file : Option String := none

namespace Given

def has (g : Given) (o : Switch) : Bool :=
  g.flags.contains o || g.values.any fun v => v.1 = o

def value? (g : Given) (o : Switch) : Option String := g.values.lookup o

def addFlag (g : Given) (o : Switch) : Option Given :=
  if g.has o && !o.mayRepeat then none else some { g with flags := o :: g.flags }

def addValue (g : Given) (o : Switch) (value : String) : Option Given :=
  if g.has o || (o.taking = .path && value.isEmpty) then none
  else some { g with values := (o, value) :: g.values }

/-- Takes a word that is no option. There is room for one, and it is a path. -/
def addWord (g : Given) (word : String) : Option Given :=
  if g.file.isSome || word.isEmpty then none else some { g with file := some word }

end Given

/-! ## One word -/

/-- A word that is an option, by its dash. A single dash is none. -/
def isOption (word : String) : Bool := word.startsWith "-" && word ≠ "-"

/-- What a word with options comes to: it is complete, or its last option waits for a
value, or it asks for the version. -/
inductive WordReading where
  | complete (given : Given)
  | waiting (given : Given) (option : Switch)
  | version

/-- Reads the rest of a word behind its option. A value may follow an equals sign, and a
short option may be followed by its value at once. -/
def joinedValue (rest : List Char) : String :=
  match rest with
  | '=' :: value => String.ofList value
  | value => String.ofList value

/-- Reads joined short options. -/
def readShort (known : List Switch) (g : Given) : List Char → Option WordReading
  | [] => some (.complete g)
  | c :: rest => do
    let o ← known.find? fun o => o.short? = some c
    if o = .version then some .version
    else if o.taking = .nothing then readShort known (← g.addFlag o) rest
    else if rest.isEmpty then some (.waiting g o)
    else (g.addValue o (joinedValue rest)).map .complete

/-- Reads a long option behind its two dashes. -/
def readLong (known : List Switch) (g : Given) (body : List Char) : Option WordReading := do
  let (name, value) := body.span (· ≠ '=')
  let o ← known.find? fun o => o.long.toList = name
  match o.taking, value with
  | .nothing, [] => if o = .version then some .version else (g.addFlag o).map .complete
  | .nothing, _ => none
  | _, [] => some (.waiting g o)
  | _, value => (g.addValue o (joinedValue value)).map .complete

def readOption (known : List Switch) (g : Given) (word : String) : Option WordReading :=
  match word.toList with
  | '-' :: '-' :: body => readLong known g body
  | '-' :: body => readShort known g body
  | _ => none

/-! ## The words of a command -/

/-- What the words before a command come to. -/
inductive Reading where
  | complete (given : Given) (rest : List String)
  | version

/-- Reads words. `stops` says which word ends the reading, that word and the rest are given
back. -/
def readWords (known : List Switch) (stops : Bool) (g : Given) : List String → Option Reading
  | [] => some (.complete g [])
  | "--" :: rest =>
    if stops then none else (rest.foldlM Given.addWord g).map fun g => .complete g []
  | word :: rest =>
    if isOption word then
      match readOption known g word with
      | none => none
      | some .version => some .version
      | some (.complete g) => readWords known stops g rest
      | some (.waiting g o) =>
        match rest with
        | value :: rest =>
          if isOption value then none
          else
            match g.addValue o value with
            | none => none
            | some g => readWords known stops g rest
        | [] => none
    else if stops then some (.complete g (word :: rest))
    else
      match g.addWord word with
      | none => none
      | some g => readWords known stops g rest

/-! ## Commands -/

/-- The block that a command is about. -/
structure TargetArguments where
  file : Option String
  patch : Option String
  anchor : Option String
  start : Option String
  stop : Option String
  uniqueAnchor : Bool
  deriving Repr

/-- What comes in place of the block. -/
structure ReplacementArguments where
  text : Option String
  file : Option String
  deriving Repr

/-- A command with what its words say. -/
inductive Command where
  | apply (target : TargetArguments) (replacement : ReplacementArguments) (dryRun diff : Bool)
  | check (target : TargetArguments) (replacement : ReplacementArguments)
  | extract (target : TargetArguments)
  deriving Repr

/-- A command line. -/
structure CommandLine where
  workspace : Option String
  verbosity : Nat
  quiet : Bool
  command : Command
  deriving Repr

/-- What the program is asked for. -/
inductive Request where
  | version
  | run (line : CommandLine)

/-- The options that may stand before or after the command. -/
def sharedOptions : List Switch := [.workspace, .verbose, .quiet]

def targetOptions : List Switch := [.patch, .anchor, .start, .stop, .uniqueAnchor]

def replacementOptions : List Switch := [.replacement, .replacementFile]

/-- The options of a command by its name. -/
def commandOptions? : String → Option (List Switch)
  | "apply" => some (targetOptions ++ replacementOptions ++ [.dryRun, .diff])
  | "check" => some (targetOptions ++ replacementOptions)
  | "extract" => some targetOptions
  | _ => none

/-- Options that may not stand together. -/
def conflicts : List (Switch × Switch) :=
  [(.patch, .anchor), (.patch, .start), (.patch, .stop), (.replacement, .replacementFile),
   (.replacement, .patch), (.replacementFile, .patch)]

namespace Given

/-- The words of a command fit together: it has a file or a patch, and not both. -/
def isConsistent (g : Given) : Bool :=
  g.file.isSome ≠ g.has .patch && conflicts.all fun c => !(g.has c.1 && g.has c.2)

def target (g : Given) : TargetArguments :=
  { file := g.file, patch := g.value? .patch, anchor := g.value? .anchor,
    start := g.value? .start, stop := g.value? .stop, uniqueAnchor := g.has .uniqueAnchor }

def replacement (g : Given) : ReplacementArguments :=
  { text := g.value? .replacement, file := g.value? .replacementFile }

def command? (g : Given) : String → Option Command
  | "apply" => some (.apply g.target g.replacement (g.has .dryRun) (g.has .diff))
  | "check" => some (.check g.target g.replacement)
  | "extract" => some (.extract g.target)
  | _ => none

/-- How often an option was given. -/
def count (g : Given) (o : Switch) : Nat := g.flags.count o

end Given

/-- The command line of words before the command and after it. Where both give an option,
the words after the command win. -/
def commandLine? (early late : Given) (name : String) : Option CommandLine :=
  if !late.isConsistent then none
  else
    (late.command? name).map fun command =>
      { workspace := (late.value? .workspace).or (early.value? .workspace)
        verbosity := if late.has .verbose then late.count .verbose else early.count .verbose
        quiet := late.has .quiet || early.has .quiet
        command }

/-- What the words of a command line ask for. Nothing, if they do not fit the program. -/
def request? (words : List String) : Option Request :=
  match readWords (.version :: sharedOptions) true {} words with
  | some .version => some .version
  | some (.complete early (name :: rest)) => do
    let known ← commandOptions? name
    match ← readWords (known ++ sharedOptions) false {} rest with
    | .complete late _ => (commandLine? early late name).map .run
    | .version => none
  | _ => none

end AnchoredBlocks.Console
