-- What turns one list of lines into another: runs of lines that are kept,
-- removed or added. The old lines are those kept or removed, in order, and
-- the new lines are those kept or added.

namespace AnchoredBlocks.LineDiff

variable {α : Type}

/-! ## Changes -/

/-- A run of lines. -/
inductive Change (α : Type) where
  | keep (lines : List α)
  | remove (lines : List α)
  | add (lines : List α)
  deriving DecidableEq, Repr

/-- What a script turns one list of lines into another by. -/
abbrev Script (α : Type) := List (Change α)

namespace Change

def lines : Change α → List α
  | keep ls => ls
  | remove ls => ls
  | add ls => ls

/-- The old lines of a run. -/
def before : Change α → List α
  | keep ls => ls
  | remove ls => ls
  | add _ => []

/-- The new lines of a run. -/
def after : Change α → List α
  | keep ls => ls
  | remove _ => []
  | add ls => ls

end Change

namespace Script

/-- The lines that a script begins with. -/
def before (s : Script α) : List α := s.flatMap Change.before

/-- The lines that a script ends with. -/
def after (s : Script α) : List α := s.flatMap Change.after

end Script

/-! ## Lines in common -/

variable [DecidableEq α]

/-- How many lines two lists share at their heads. -/
def sharedHead : List α → List α → Nat
  | a :: as, b :: bs => if a = b then sharedHead as bs + 1 else 0
  | _, _ => 0

/-- How many lines two lists share at their ends. -/
def sharedEnd (as bs : List α) : Nat := sharedHead as.reverse bs.reverse

theorem sharedHead_le (as bs : List α) : sharedHead as bs ≤ as.length := by
  induction as generalizing bs with
  | nil => simp [sharedHead]
  | cons a as ih =>
    cases bs with
    | nil => simp [sharedHead]
    | cons b bs =>
      simp only [sharedHead, List.length_cons]
      split
      · have := ih bs; omega
      · omega

theorem sharedEnd_le (as bs : List α) : sharedEnd as bs ≤ as.length := by
  have := sharedHead_le as.reverse bs.reverse
  simpa [sharedEnd] using this

/-- How many lines two arrays share from given places on, at most `count`. -/
def sharedFrom (as bs : Array α) (i j : Nat) : Nat → Nat
  | 0 => 0
  | count + 1 =>
    match as[i]?, bs[j]? with
    | some a, some b => if a = b then sharedFrom as bs (i + 1) (j + 1) count + 1 else 0
    | _, _ => 0

/-! ## The middle of a shortest way -/

/-- A way through the grid of old and new lines on one diagonal. It came to a place by its
last change, and went on from there along shared lines as far as `far` old lines. -/
structure Reach where
  diagonal : Int
  old : Nat
  new : Nat
  far : Nat

/-- The ways with `d` changes, on the diagonals from `d` down to `-d` in steps of two, from
how far the ways with one change less got. -/
def reaches (as bs : Array α) (d : Nat) (shorter : Array Nat) : List Reach :=
  (List.range (d + 1)).map fun (j : Nat) =>
    let k : Int := d - 2 * j
    let right := shorter.getD j 0 + 1
    let down := shorter.getD (j - 1) 0
    let x := if d = 0 then 0
      else if j = d then down
      else if j ≠ 0 && shorter.getD j 0 < down then down
      else right
    let y := (x - k).toNat
    ⟨k, x, y, x + sharedFrom as bs x y as.size⟩

/-- How far the ways got. -/
def frontier (ways : List Reach) : Array Nat := (ways.map Reach.far).toArray

/-- How far a frontier of ways with `d` changes got on a diagonal. -/
def farOn (ways : Array Nat) (d : Int) (k : Int) : Nat :=
  ways.getD ((d - k) / 2).toNat 0

/-- The first way that meets a frontier from the other end. The two ways have `d` and `e`
changes. -/
def meeting? (n : Nat) (delta : Int) (ways : List Reach) (other : Array Nat) (e : Int) :
    Option Reach :=
  ways.find? fun r =>
    (r.diagonal - delta).natAbs ≤ e && n ≤ r.far + farOn other e (delta - r.diagonal)

/-- Goes on from both ends, one change at a time, until two ways meet. -/
def searchMiddle (as bs asBack bsBack : Array α) (d : Nat) (ahead back : Array Nat) :
    Nat → Option (Nat × Nat)
  | 0 => none
  | steps + 1 =>
    let n := as.size
    let m := bs.size
    let delta : Int := (n : Int) - m
    let isOdd := delta % 2 ≠ 0
    let forward := reaches as bs d ahead
    match if isOdd then meeting? n delta forward back (d - 1) else none with
    | some r => some (r.old, r.new)
    | none =>
      let backward := reaches asBack bsBack d back
      match if isOdd then none else meeting? n delta backward (frontier forward) d with
      | some r => some (n - r.far, m - (r.far - r.diagonal).toNat)
      | none =>
        searchMiddle as bs asBack bsBack (d + 1) (frontier forward) (frontier backward) steps

/-- A place on a shortest way between two lists of lines, about half of its changes from
either end. -/
def middle? (as bs : List α) : Option (Nat × Nat) :=
  searchMiddle as.toArray bs.toArray as.reverse.toArray bs.reverse.toArray 0 #[] #[]
    (as.length + bs.length + 1)

/-! ## The script -/

/-- A run that keeps lines, if there are any. -/
def kept (lines : List α) : Script α := if lines.isEmpty then [] else [.keep lines]

/-- The script between two lists of lines. What they share at their ends is kept, and the
rest is parted at its middle. -/
def script (old new : List α) : Script α :=
  let head := sharedHead old new
  let oldRest := old.drop head
  let newRest := new.drop head
  let tail := sharedEnd oldRest newRest
  let a := oldRest.take (oldRest.length - tail)
  let b := newRest.take (newRest.length - tail)
  let between : Script α :=
    if a.isEmpty && b.isEmpty then []
    else if b.isEmpty then [.remove a]
    else if a.isEmpty then [.add b]
    else
      match middle? a b with
      | some (x, y) =>
        if _h : x ≤ a.length ∧ y ≤ b.length ∧ 0 < x + y ∧ x + y < a.length + b.length then
          script (a.take x) (b.take y) ++ script (a.drop x) (b.drop y)
        else [.remove a, .add b]
      | none => [.remove a, .add b]
  kept (old.take head) ++ between ++ kept (oldRest.drop (oldRest.length - tail))
termination_by old.length + new.length
decreasing_by
  all_goals
    have h1 : a.length ≤ old.length := by
      simp only [a, oldRest, List.length_take, List.length_drop]; omega
    have h2 : b.length ≤ new.length := by
      simp only [b, newRest, List.length_take, List.length_drop]; omega
    simp only [List.length_take, List.length_drop]
    omega

end AnchoredBlocks.LineDiff
