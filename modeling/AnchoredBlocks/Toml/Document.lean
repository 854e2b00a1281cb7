-- A TOML document, read from its characters into one table. Every turn of the
-- reading uses up some of the text, so the reading ends.
import AnchoredBlocks.Toml.Quoted
import AnchoredBlocks.Toml.Tables

namespace AnchoredBlocks.Toml

/-! ## Turns -/

/-- Reads something at the head of a text and gives back the rest. -/
abbrev Reader (α : Type) := List Char → Except Fault (α × List Char)

/-- What one turn comes to. -/
inductive Turn (σ β : Type) where
  | more (state : σ)
  | done (result : β)

/-- Takes turns until one is done. -/
def takeTurns {σ β : Type} (turn : σ → Reader (Turn σ β)) (state : σ) (cs : List Char) :
    Except Fault (β × List Char) :=
  match turn state cs with
  | .error fault => .error fault
  | .ok (.done result, rest) => .ok (result, rest)
  | .ok (.more next, rest) =>
    if rest.length < cs.length then takeTurns turn next rest else .error .badValue
termination_by cs.length

/-! ## Blanks -/

/-- The text after the blanks of the line. -/
def skipSpaces (cs : List Char) : List Char := cs.dropWhile isSpace

/-- The text after blanks, line ends and comments. -/
def skipGap (inComment : Bool) : List Char → List Char
  | [] => []
  | c :: rest =>
    if c = '\n' then skipGap false rest
    else if inComment || c = '\r' || isSpace c then skipGap inComment rest
    else if c = '#' then skipGap true rest
    else c :: rest

/-- The text after the end of the line. A comment may stand before it. -/
def skipLineEnd (cs : List Char) : Except Fault (List Char) :=
  let rest :=
    match skipSpaces cs with
    | '#' :: rest => rest.dropWhile fun c => c ≠ '\n' && c ≠ '\r'
    | rest => rest
  match rest with
  | [] => .ok []
  | '\n' :: rest => .ok rest
  | '\r' :: '\n' :: rest => .ok rest
  | _ => .error (.expected "the end of the line")

/-! ## Keys -/

/-- How many parts a key may have, and how deep values may be nested. -/
def nestingLimit : Nat := 80

/-- A character of a key without quotes. -/
def isKeyChar (c : Char) : Bool := c.isAlphanum || c = '_' || c = '-'

/-- One part of a key. -/
def keyPart : Reader String := fun cs =>
  match cs with
  | '"' :: rest => basicText [] rest
  | '\x27' :: rest => literalText [] rest
  | _ =>
    let (name, rest) := cs.span isKeyChar
    if name.isEmpty then .error .badKey else .ok (String.ofList name, rest)

/-- A key: the parts before the last dot, and the last part. -/
def dottedKey : Reader (List String × String) :=
  takeTurns (fun (before : List String) cs =>
    match keyPart (skipSpaces cs) with
    | .error fault => .error fault
    | .ok (name, rest) =>
      if nestingLimit ≤ before.length then .error .tooDeep
      else
        match skipSpaces rest with
        | '.' :: rest => .ok (.more (name :: before), rest)
        | rest => .ok (.done (before.reverse, name), rest)) []

/-! ## Values -/

/-- One item of an array, with the comma or the bracket after it. -/
def arrayTurn (item : Reader Value) (items : List Value) : Reader (Turn (List Value) Value) :=
  fun cs =>
    match skipGap false cs with
    | ']' :: rest => .ok (.done (.array items.reverse), rest)
    | cs =>
      match item cs with
      | .error fault => .error fault
      | .ok (value, rest) =>
        match skipGap false rest with
        | ',' :: rest => .ok (.more (value :: items), rest)
        | ']' :: rest => .ok (.done (.array (value :: items).reverse), rest)
        | _ => .error (.expected "a comma or a bracket")

/-- One pair of a table in braces, with the comma or the brace after it. -/
def bracesTurn (item : Reader Value) (fields : Fields) : Reader (Turn Fields Value) :=
  fun cs =>
    match skipGap false cs with
    | '}' :: rest => .ok (.done (.table .braces fields), rest)
    | cs => do
      let ((path, key), rest) ← dottedKey cs
      match skipGap false rest with
      | '=' :: rest =>
        let (value, rest) ← item (skipGap false rest)
        let fields ← addPair path key value .braces fields
        match skipGap false rest with
        | ',' :: rest => .ok (.more fields, rest)
        | '}' :: rest => .ok (.done (.table .braces fields), rest)
        | _ => .error (.expected "a comma or a brace")
      | _ => .error (.expected "an equals sign")

/-- A value of one word or one quoted text. -/
def plainValue : Reader Value := fun cs =>
  match quotedText? cs with
  | some read => read.map fun (text, rest) => (.text text, rest)
  | none =>
    let (w, rest) := word cs
    match scalar? w with
    | some value => .ok (value, rest)
    | none => .error .badValue

/-- A value with at most `depth` more arrays or tables around its parts. -/
def value : Nat → Reader Value
  | 0 => fun cs =>
    match cs with
    | '[' :: _ => .error .tooDeep
    | '{' :: _ => .error .tooDeep
    | _ => plainValue cs
  | depth + 1 => fun cs =>
    match cs with
    | '[' :: rest => takeTurns (arrayTurn (value depth)) [] rest
    | '{' :: rest => takeTurns (bracesTurn (value depth)) [] rest
    | _ => plainValue cs

/-! ## Lines -/

/-- The tables so far, and the keys of the header that the next lines belong to. -/
structure Draft where
  fields : Fields := []
  header : List String := []

/-- The part of a header after its opening brackets. -/
def headerKey (closing : List Char) : Reader (List String × String) := fun cs => do
  let (key, rest) ← dottedKey cs
  if closing.isPrefixOf rest then .ok (key, rest.drop closing.length)
  else .error (.expected "a closing bracket")

/-- A line with a key and its value. -/
def pairLine (draft : Draft) : Reader Draft := fun cs => do
  let ((path, key), rest) ← dottedKey cs
  match rest with
  | '=' :: rest =>
    let (value, rest) ← value nestingLimit (skipSpaces rest)
    let fields ← changeAt .header (addPair path key value) draft.header .header draft.fields
    .ok ({ draft with fields }, rest)
  | _ => .error (.expected "an equals sign")

/-- A line with something on it. -/
def filledLine (draft : Draft) : Reader Draft := fun cs =>
  match cs with
  | '[' :: '[' :: rest => do
    let ((path, key), rest) ← headerKey [']', ']'] rest
    let fields ← addElement path key draft.fields
    .ok ({ fields, header := path ++ [key] }, rest)
  | '[' :: rest => do
    let ((path, key), rest) ← headerKey [']'] rest
    let fields ← addTable path key draft.fields
    .ok ({ fields, header := path ++ [key] }, rest)
  | _ => pairLine draft cs

/-- One line, or the blank lines and comments before it. -/
def lineTurn (draft : Draft) : Reader (Turn Draft Fields) := fun cs =>
  match skipGap false cs with
  | [] => .ok (.done draft.fields, [])
  | cs => do
    let (draft, rest) ← filledLine draft cs
    .ok (.more draft, ← skipLineEnd rest)

/-! ## Documents -/

/-- A document holds no control characters but tabs and line ends. A carriage return
stands only before a newline. -/
def isPlain : List Char → Bool
  | [] => true
  | '\r' :: '\n' :: rest => isPlain rest
  | c :: rest =>
    (c = '\t' || c = '\n' || (0x20 ≤ c.toNat && c.toNat ≠ 0x7F)) && isPlain rest

/-- The text after a byte order mark at its head. -/
def skipMark : List Char → List Char
  | '\ufeff' :: rest => rest
  | cs => cs

/-- The table of a document. -/
def read (text : String) : Except Fault Fields :=
  let cs := skipMark text.toList
  if isPlain cs then (takeTurns lineTurn {} cs).map (·.1) else .error .badCharacter

end AnchoredBlocks.Toml
