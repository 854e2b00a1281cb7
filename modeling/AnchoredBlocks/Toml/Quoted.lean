-- Quoted texts. Between double quotes a backslash begins an escape, between
-- single quotes all stands for itself. Three quotes hold several lines.
import AnchoredBlocks.Toml.Scalar

namespace AnchoredBlocks.Toml

/-! ## Escapes -/

/-- The character that one letter stands for. -/
def letterEscape? : Char → Option Char
  | 'b' => some '\x08'
  | 't' => some '\t'
  | 'n' => some '\n'
  | 'f' => some '\x0c'
  | 'r' => some '\r'
  | 'e' => some '\x1b'
  | '"' => some '"'
  | '\\' => some '\\'
  | _ => none

/-- The number of digits of an escape that gives a code point. -/
def codeLength? : Char → Option Nat
  | 'x' => some 2
  | 'u' => some 4
  | 'U' => some 8
  | _ => none

/-- The character of a code point in hexadecimal digits. -/
def codeChar? (count : Nat) (cs : List Char) : Option Char :=
  let ds := cs.take count
  if ds.length = count && ds.all (isDigitIn 16) then
    let n := numberOf 16 ds
    if n.isValidChar then some (Char.ofNat n) else none
  else none

/-- The character of the escape after a backslash, and how much of the text it takes. -/
def escape? : List Char → Option (Char × Nat)
  | [] => none
  | c :: rest =>
    match codeLength? c with
    | some count => (codeChar? count rest).map fun d => (d, count + 1)
    | none => (letterEscape? c).map fun d => (d, 1)

/-! ## Texts on one line -/

/-- A text up to its double quote. -/
def basicText (done : List Char) (cs : List Char) : Except Fault (String × List Char) :=
  match cs with
  | [] => .error .unclosedText
  | '"' :: rest => .ok (String.ofList done.reverse, rest)
  | '\\' :: rest =>
    match escape? rest with
    | some (c, used) => basicText (c :: done) (rest.drop used)
    | none => .error .badEscape
  | c :: rest => if c = '\n' || c = '\r' then .error .unclosedText else basicText (c :: done) rest
termination_by cs.length
decreasing_by all_goals simp only [List.length_drop, List.length_cons]; omega

/-- A text up to its single quote. -/
def literalText (done : List Char) : List Char → Except Fault (String × List Char)
  | [] => .error .unclosedText
  | c :: rest =>
    if c = '\x27' then .ok (String.ofList done.reverse, rest)
    else if c = '\n' || c = '\r' then .error .unclosedText
    else literalText (c :: done) rest

/-! ## Texts on several lines -/

/-- How many quotes stand at the head of a text. -/
def quotesAtHead (quote : Char) (cs : List Char) : Nat := (cs.takeWhile (· = quote)).length

/-- A blank within a line. -/
def isSpace (c : Char) : Bool := c = ' ' || c = '\t'

/-- A backslash at the end of a line joins the lines: how much blank text it takes. -/
def joinedLines? (cs : List Char) : Option Nat :=
  match cs.dropWhile isSpace with
  | c :: _ =>
    if c = '\n' || c = '\r' then
      some (cs.takeWhile fun c => isSpace c || c = '\n' || c = '\r').length
    else none
  | [] => none

/-- The text that is done when three quotes or more end it. Up to two of them belong to
the text. -/
def closeLines (quote : Char) (done : List Char) (quotes : Nat) (cs : List Char) :
    String × List Char :=
  let own := min (quotes - 3) 2
  (String.ofList (done.reverse ++ List.replicate own quote), cs.drop (own + 3))

/-- Several lines up to three double quotes. -/
def basicLines (done : List Char) (cs : List Char) : Except Fault (String × List Char) :=
  match cs with
  | [] => .error .unclosedText
  | '\\' :: rest =>
    match joinedLines? rest with
    | some used => basicLines done (rest.drop used)
    | none =>
      match escape? rest with
      | some (c, used) => basicLines (c :: done) (rest.drop used)
      | none => .error .badEscape
  | c :: rest =>
    let quotes := quotesAtHead '"' cs
    if 3 ≤ quotes then .ok (closeLines '"' done quotes cs) else basicLines (c :: done) rest
termination_by cs.length
decreasing_by all_goals simp only [List.length_drop, List.length_cons]; omega

/-- Several lines up to three single quotes. -/
def literalLines (done : List Char) (cs : List Char) : Except Fault (String × List Char) :=
  match cs with
  | [] => .error .unclosedText
  | c :: rest =>
    let quotes := quotesAtHead '\x27' cs
    if 3 ≤ quotes then .ok (closeLines '\x27' done quotes cs) else literalLines (c :: done) rest

/-- A newline right after the three quotes is no part of the text. -/
def afterOpening : List Char → List Char
  | '\n' :: rest => rest
  | '\r' :: '\n' :: rest => rest
  | cs => cs

/-! ## Texts as values -/

/-- A text in quotes of either kind, from its first quote on. -/
def quotedText? (cs : List Char) : Option (Except Fault (String × List Char)) :=
  match cs with
  | '"' :: '"' :: '"' :: rest => some (basicLines [] (afterOpening rest))
  | '\x27' :: '\x27' :: '\x27' :: rest => some (literalLines [] (afterOpening rest))
  | '"' :: rest => some (basicText [] rest)
  | '\x27' :: rest => some (literalText [] rest)
  | _ => none

end AnchoredBlocks.Toml
