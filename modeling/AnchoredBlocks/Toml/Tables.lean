-- How tables grow line by line. A line adds to the table of the last header.
-- No key is given twice, and a table that is complete stays as it is.
import AnchoredBlocks.Toml.Value

namespace AnchoredBlocks.Toml

/-- The fields with another value at a key that is there. -/
def setField (key : String) (value : Value) : Fields → Fields
  | [] => []
  | (k, v) :: rest => if k = key then (k, value) :: rest else (k, v) :: setField key value rest

/-- A path of keys goes by the parts of a header or by the parts of a dotted key. -/
inductive Way where
  | header
  | dotted
  deriving DecidableEq, Repr

namespace Way

/-- What a table on the way is, when it comes to be there. -/
def making : Way → Making
  | .header => .implied
  | .dotted => .dotted

/-- The way may lead through a table. A table in braces is complete, and a dotted key adds
to no table that has a header of its own. -/
def mayEnter : Way → Making → Bool
  | _, .braces => false
  | .dotted, .header => false
  | _, _ => true

end Way

/-- The last of some tables, changed. -/
def changeLast (key : String) (change : Making → Fields → Except Fault Fields)
    (elements : List Value) : Except Fault (List Value) :=
  match elements.reverse with
  | .table making fields :: before =>
    (change making fields).map fun fresh => (Value.table making fresh :: before).reverse
  | _ => .error (.notATable key)

/-- Changes the table at the end of a path. Tables that are missing on the way come to be.
Where several tables share a key, the way leads into the last one. -/
def changeAt (way : Way) (change : Making → Fields → Except Fault Fields) :
    List String → Making → Fields → Except Fault Fields
  | [], making, fields => change making fields
  | key :: path, _, fields =>
    match fields.lookup key with
    | none =>
      (changeAt way change path way.making []).map fun inner =>
        fields ++ [(key, .table way.making inner)]
    | some (.table making inner) =>
      if way.mayEnter making then
        (changeAt way change path making inner).map fun fresh =>
          setField key (.table making fresh) fields
      else .error (.duplicate key)
    | some (.tables elements) =>
      (changeLast key (changeAt way change path) elements).map fun fresh =>
        setField key (.tables fresh) fields
    | some _ => .error (.notATable key)

/-- Adds a value under a dotted key. The table that takes it was made by dotted keys, or
is the one that the line stands in. -/
def addPair (path : List String) (key : String) (value : Value) (making : Making)
    (fields : Fields) : Except Fault Fields :=
  changeAt .dotted
    (fun making fields =>
      if path.isEmpty ≠ decide (making ≠ .dotted) then .error (.duplicate key)
      else if (fields.lookup key).isSome then .error (.duplicate key)
      else .ok (fields ++ [(key, value)]))
    path making fields

/-- Makes the table of a header. It may have come to be before only by the headers of
tables below it. -/
def addTable (path : List String) (key : String) (fields : Fields) : Except Fault Fields :=
  changeAt .header
    (fun _ fields =>
      match fields.lookup key with
      | none => .ok (fields ++ [(key, .table .header [])])
      | some (.table .implied inner) => .ok (setField key (.table .header inner) fields)
      | some _ => .error (.duplicate key))
    path .header fields

/-- Adds one more table to those of a doubled header. -/
def addElement (path : List String) (key : String) (fields : Fields) : Except Fault Fields :=
  changeAt .header
    (fun _ fields =>
      match fields.lookup key with
      | none => .ok (fields ++ [(key, .tables [.table .header []])])
      | some (.tables elements) =>
        .ok (setField key (.tables (elements ++ [.table .header []])) fields)
      | some _ => .error (.duplicate key))
    path .header fields

end AnchoredBlocks.Toml
