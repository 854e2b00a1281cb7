-- The values of a TOML document. A table remembers how it came to be, because
-- that decides which later lines may still add to it.

namespace AnchoredBlocks.Toml

/-! ## Faults -/

/-- Why a document was not read. -/
inductive Fault where
  | badCharacter
  | unclosedText
  | badEscape
  | badKey
  | badValue
  | tooDeep
  | expected (what : String)
  | duplicate (key : String)
  | notATable (key : String)
  | wrongType (key : String)
  deriving DecidableEq, Repr

def Fault.message : Fault → String
  | .badCharacter => "a control character stands in the document"
  | .unclosedText => "a text has no end"
  | .badEscape => "a text has an unknown escape"
  | .badKey => "a key was expected"
  | .badValue => "a value was expected"
  | .tooDeep => "values or keys are nested too deep"
  | .expected what => what ++ " was expected"
  | .duplicate key => "the key '" ++ key ++ "' was given before"
  | .notATable key => "the key '" ++ key ++ "' is no table"
  | .wrongType key => "the key '" ++ key ++ "' has a value of another type"

/-! ## Values -/

/-- How a table came to be: by its own header, by the header of a table below it, by a
dotted key, or in braces. -/
inductive Making where
  | header
  | implied
  | dotted
  | braces
  deriving DecidableEq, Repr

/-- A decimal number: digits with a power of ten. -/
structure Decimal where
  negative : Bool
  digits : Nat
  exponent : Int
  deriving DecidableEq, Repr

/-- A value. `array` is written in brackets, `tables` comes to be by doubled headers. -/
inductive Value where
  | text (text : String)
  | integer (n : Int)
  | decimal (d : Decimal)
  | infinity (negative : Bool)
  | notANumber
  | boolean (b : Bool)
  | moment (written : String)
  | array (items : List Value)
  | table (making : Making) (fields : List (String × Value))
  | tables (elements : List Value)
  deriving Repr

/-- The keys of a table with their values, in the order of the document. -/
abbrev Fields := List (String × Value)

/-! ## Records -/

/-- A value from which a record is read: by the names of its fields, or by their order. -/
inductive Record where
  | named (fields : Fields)
  | ordered (items : List Value)

namespace Value

/-- The record of a value. A moment is a record whose fields nobody asks for. -/
def record? : Value → Option Record
  | .table _ fields => some (.named fields)
  | .array items => some (.ordered items)
  | .tables elements => some (.ordered elements)
  | .moment _ => some (.named [])
  | _ => none

end Value

namespace Record

/-- A field by its name, or by its place among the fields. -/
def field? (r : Record) (place : Nat) (name : String) : Option Value :=
  match r with
  | .named fields => fields.lookup name
  | .ordered items => items[place]?

/-- A field that holds a text, if it is there. -/
def text? (r : Record) (place : Nat) (name : String) : Except Fault (Option String) :=
  match r.field? place name with
  | none => .ok none
  | some (.text text) => .ok (some text)
  | some _ => .error (.wrongType name)

/-- A field that holds a text, empty when it is not there. -/
def text (r : Record) (place : Nat) (name : String) : Except Fault String :=
  (r.text? place name).map (·.getD "")

/-- A field that is a flag, not set when it is not there. -/
def flag (r : Record) (place : Nat) (name : String) : Except Fault Bool :=
  match r.field? place name with
  | none => .ok false
  | some (.boolean b) => .ok b
  | some _ => .error (.wrongType name)

/-- A field that is a record itself, without fields when it is not there. -/
def record (r : Record) (place : Nat) (name : String) : Except Fault Record :=
  match r.field? place name with
  | none => .ok (.named [])
  | some value =>
    match value.record? with
    | some inner => .ok inner
    | none => .error (.wrongType name)

end Record

end AnchoredBlocks.Toml
