-- Numbers, flags and moments. Each is one word, and a word is read as a whole
-- or not at all.
import AnchoredBlocks.Toml.Value

namespace AnchoredBlocks.Toml

/-! ## Digits -/

/-- The value of a digit in any base up to 16. -/
def digitValue (c : Char) : Nat :=
  if c.isDigit then c.toNat - 48 else if 'a' ≤ c then c.toNat - 87 else c.toNat - 55

/-- A digit in a base. -/
def isDigitIn (base : Nat) (c : Char) : Bool :=
  (c.isDigit || ('a' ≤ c && c ≤ 'f') || ('A' ≤ c && c ≤ 'F')) && digitValue c < base

/-- The number that digits stand for. -/
def numberOf (base : Nat) (digits : List Char) : Nat :=
  digits.foldl (fun n c => n * base + digitValue c) 0

/-- Digits without the underscores between them. `afterDigit` says that a digit came last. -/
def plainDigits? (base : Nat) (afterDigit : Bool) : List Char → Option (List Char)
  | [] => if afterDigit then some [] else none
  | '_' :: rest => if afterDigit then plainDigits? base false rest else none
  | c :: rest => if isDigitIn base c then (plainDigits? base true rest).map (c :: ·) else none

/-- Decimal digits of a whole number, which has no zero at its head. -/
def wholeDigits? (cs : List Char) : Option (List Char) :=
  match cs with
  | '0' :: _ :: _ => none
  | _ => plainDigits? 10 false cs

/-! ## Numbers -/

/-- The sign at the head of a word, set for a minus, and the rest. -/
def signed : List Char → Bool × List Char
  | '+' :: rest => (false, rest)
  | '-' :: rest => (true, rest)
  | cs => (false, cs)

/-- Integers have 64 bits with a sign. -/
def fitInteger? (n : Int) : Option Value :=
  if Int64.minValue.toInt ≤ n ∧ n ≤ Int64.maxValue.toInt then some (.integer n) else none

/-- A whole number. A base other than ten takes no sign. -/
def integer? : List Char → Option Value
  | '0' :: 'x' :: cs => (plainDigits? 16 false cs).bind fun ds => fitInteger? (numberOf 16 ds)
  | '0' :: 'o' :: cs => (plainDigits? 8 false cs).bind fun ds => fitInteger? (numberOf 8 ds)
  | '0' :: 'b' :: cs => (plainDigits? 2 false cs).bind fun ds => fitInteger? (numberOf 2 ds)
  | cs =>
    let (negative, whole) := signed cs
    (wholeDigits? whole).bind fun ds =>
      let n : Int := numberOf 10 ds
      fitInteger? (if negative then -n else n)

/-- A decimal that rounds to a number of 64 bits. From half a step above the greatest one
on it does not. -/
def Decimal.fits (d : Decimal) : Bool :=
  let limit := Nat.pow 2 1024 - Nat.pow 2 970
  let size : Int := (Nat.toDigits 10 d.digits).length + d.exponent
  if d.digits = 0 || size < 300 then true
  else if size > 310 then false
  else if 0 ≤ d.exponent then d.digits * Nat.pow 10 d.exponent.toNat < limit
  else d.digits < limit * Nat.pow 10 (-d.exponent).toNat

/-- The power of ten after an `e`. -/
def exponent? (cs : List Char) : Option Int :=
  let (negative, whole) := signed cs
  (plainDigits? 10 false whole).map fun ds =>
    let n : Int := numberOf 10 ds
    if negative then -n else n

/-- The parts of a decimal: before the point, after it, and after the `e`. -/
def decimalParts (cs : List Char) : List Char × Option (List Char) × Option (List Char) :=
  let isMark (c : Char) : Bool := c = 'e' || c = 'E'
  let (front, power) := cs.span (!isMark ·)
  let (whole, fraction) := front.span (· ≠ '.')
  (whole, fraction.tail?, power.tail?)

/-- A number with a point or a power of ten. -/
def decimal? (cs : List Char) : Option Value := do
  let (negative, body) := signed cs
  let (whole, fraction, power) := decimalParts body
  if fraction.isNone && power.isNone then none
  let before ← wholeDigits? whole
  let after ← match fraction with
    | some f => plainDigits? 10 false f
    | none => some []
  let exponent ← match power with
    | some p => exponent? p
    | none => some 0
  let d : Decimal := ⟨negative, numberOf 10 (before ++ after), exponent - after.length⟩
  if d.fits then some (.decimal d) else none

/-- The words that stand for numbers. -/
def numberWord? (cs : List Char) : Option Value :=
  let (negative, word) := signed cs
  if word = ['i', 'n', 'f'] then some (.infinity negative)
  else if word = ['n', 'a', 'n'] then some .notANumber
  else none

/-! ## Moments -/

/-- A number of exactly `count` digits, and the rest. -/
def fixedNumber? (count : Nat) (cs : List Char) : Option (Nat × List Char) :=
  let ds := cs.take count
  if ds.length = count && ds.all Char.isDigit then some (numberOf 10 ds, cs.drop count)
  else none

/-- What comes after one given character. -/
def afterChar? (c : Char) : List Char → Option (List Char)
  | d :: rest => if d = c then some rest else none
  | [] => none

/-- The number of days of a month. -/
def daysOf (year month : Nat) : Nat :=
  if month = 2 then
    if year % 4 = 0 ∧ (year % 100 ≠ 0 ∨ year % 400 = 0) then 29 else 28
  else if month = 4 ∨ month = 6 ∨ month = 9 ∨ month = 11 then 30
  else 31

/-- What comes after a date. -/
def afterDate? (cs : List Char) : Option (List Char) := do
  let (year, cs) ← fixedNumber? 4 cs
  let (month, cs) ← fixedNumber? 2 (← afterChar? '-' cs)
  let (day, cs) ← fixedNumber? 2 (← afterChar? '-' cs)
  if 1 ≤ month ∧ month ≤ 12 ∧ 1 ≤ day ∧ day ≤ daysOf year month then some cs else none

/-- What comes after the parts of a second. -/
def afterFraction? : List Char → Option (List Char)
  | '.' :: cs => if (cs.takeWhile Char.isDigit).isEmpty then none else some (cs.dropWhile Char.isDigit)
  | cs => some cs

/-- What comes after a time of day. The seconds may be left out, and a minute may have one
second more. -/
def afterTime? (cs : List Char) : Option (List Char) := do
  let (hour, cs) ← fixedNumber? 2 cs
  let (minute, cs) ← fixedNumber? 2 (← afterChar? ':' cs)
  if hour > 23 ∨ minute > 59 then none
  match cs with
  | ':' :: cs =>
    let (second, cs) ← fixedNumber? 2 cs
    if second > 60 then none else afterFraction? cs
  | _ => some cs

/-- What comes after the distance to the world's time. -/
def afterOffset? : List Char → Option (List Char)
  | 'Z' :: cs => some cs
  | 'z' :: cs => some cs
  | c :: cs =>
    if c = '+' ∨ c = '-' then do
      let (hours, cs) ← fixedNumber? 2 cs
      let (minutes, cs) ← fixedNumber? 2 (← afterChar? ':' cs)
      if hours > 23 ∨ minutes > 59 then none else some cs
    else none
  | [] => some []

/-- A date and a time of day are parted by a letter or by one space. -/
def isDateTimeMark (c : Char) : Bool := c = 'T' || c = 't' || c = ' '

/-- The rest of a moment after its date. -/
def afterDay? : List Char → Option (List Char)
  | [] => some []
  | c :: cs => if isDateTimeMark c then (afterTime? cs).bind afterOffset? else none

/-- A date, a time of day, or both. -/
def moment? (cs : List Char) : Option Value :=
  let rest :=
    match afterDate? cs with
    | some rest => afterDay? rest
    | none => afterTime? cs
  if rest = some [] then some (.moment (String.ofList cs)) else none

/-! ## Words -/

/-- A character of a number, a flag or a moment. -/
def isWordChar (c : Char) : Bool :=
  c.isAlphanum || c = '_' || c = '+' || c = '-' || c = '.' || c = ':'

/-- The word at the head of a text, and the rest. A date takes a time of day with it that
stands one space further. -/
def word (cs : List Char) : List Char × List Char :=
  let (first, rest) := cs.span isWordChar
  match rest with
  | ' ' :: c :: more =>
    if afterDate? first = some [] && c.isDigit then
      let (second, rest) := (c :: more).span isWordChar
      (first ++ ' ' :: second, rest)
    else (first, rest)
  | _ => (first, rest)

/-- The value of a word. -/
def scalar? (w : List Char) : Option Value :=
  if w = ['t', 'r', 'u', 'e'] then some (.boolean true)
  else if w = ['f', 'a', 'l', 's', 'e'] then some (.boolean false)
  else
    (numberWord? w).or ((integer? w).or ((decimal? w).or (moment? w)))

end AnchoredBlocks.Toml
