-- A script settles: its changes slide to where they join other changes. An
-- added run may slide along kept lines that are like its own, a removed run
-- only past added ones. The lines before and after stay the same.
import AnchoredBlocks.LineDiff.Script

namespace AnchoredBlocks.LineDiff

variable {α : Type}

/-- The number of runs and lines of a script. -/
def weight : Script α → Nat
  | [] => 0
  | c :: s => c.lines.length + 1 + weight s

theorem weight_cons (c : Change α) (s : Script α) :
    weight (c :: s) = c.lines.length + 1 + weight s := rfl

/-- Kept lines before a script join the kept lines at its head. -/
def keepBefore (lines : List α) : Script α → Script α
  | .keep more :: rest => .keep (lines ++ more) :: rest
  | rest => .keep lines :: rest

/-- Kept lines after a script join the kept lines at its end. The script stands with its
last run first. -/
def keepAfter (lines : List α) : Script α → Script α
  | .keep more :: rest => .keep (more ++ lines) :: rest
  | rest => .keep lines :: rest

/-- A script around one of its runs. What comes before stands with the nearest run first. -/
structure Focus (α : Type) where
  before : Script α
  run : Change α
  after : Script α

/-! ## Sliding -/

variable [DecidableEq α]

/-- Slides a run toward the head as far as it goes. -/
def slideUp (before : Script α) (run : Change α) (after : Script α) : Focus α :=
  match run, before with
  | .add lines, .keep kept :: rest =>
    let n := sharedEnd kept lines
    let moved := lines.drop (lines.length - n)
    let left := kept.take (kept.length - n)
    if _h : n = 0 then ⟨.keep kept :: rest, .add lines, after⟩
    else
      slideUp (if left.isEmpty then rest else .keep left :: rest)
        (.add (moved ++ lines.take (lines.length - n))) (keepBefore moved after)
  | .add lines, .remove gone :: rest => slideUp rest (.add lines) (.remove gone :: after)
  | .remove lines, .add more :: rest => slideUp rest (.remove lines) (.add more :: after)
  | .add lines, .add more :: rest => slideUp rest (.add (more ++ lines)) after
  | .remove lines, .remove more :: rest => slideUp rest (.remove (more ++ lines)) after
  | run, before => ⟨before, run, after⟩
termination_by weight before
decreasing_by
  all_goals simp only [weight_cons, Change.lines]
  · have := sharedEnd_le kept lines
    split
    · omega
    · simp only [weight_cons, Change.lines, List.length_take]; omega
  all_goals omega

/-- Slides a run toward the end as far as it goes. -/
def slideDown (before : Script α) (run : Change α) (after : Script α) : Focus α :=
  match run, after with
  | .add lines, .keep kept :: rest =>
    let n := sharedHead kept lines
    let moved := lines.take n
    let left := kept.drop n
    if _h : n = 0 then ⟨before, .add lines, .keep kept :: rest⟩
    else
      slideDown (keepAfter moved before) (.add (lines.drop n ++ moved))
        (if left.isEmpty then rest else .keep left :: rest)
  | .add lines, .remove gone :: rest => slideDown (.remove gone :: before) (.add lines) rest
  | .remove lines, .add more :: rest => slideDown (.add more :: before) (.remove lines) rest
  | .add lines, .add more :: rest => slideDown before (.add (lines ++ more)) rest
  | .remove lines, .remove more :: rest => slideDown before (.remove (lines ++ more)) rest
  | run, after => ⟨before, run, after⟩
termination_by weight after
decreasing_by
  all_goals simp only [weight_cons, Change.lines]
  · have := sharedHead_le kept lines
    split
    · omega
    · simp only [weight_cons, Change.lines, List.length_drop]; omega
  all_goals omega

/-! ## One kind of change after the other -/

/-- Slides every run of one kind, from the head to the end. Each turn either joins two
runs of that kind or leaves less of the script to go through. After a run has joined one
before it, the lines between are gone through again. -/
def settleRuns (chosen : Change α → Bool) (before after : Script α) : Script α :=
  match after with
  | [] => before.reverse
  | run :: rest =>
    if _hc : chosen run then
      let up := slideUp before run rest
      let down := slideDown up.before up.run up.after
      let runs := before.countP chosen + rest.countP chosen
      let runsLeft := down.before.countP chosen + down.after.countP chosen
      if _h : runsLeft < runs ∨ (runsLeft = runs ∧ weight down.after < weight (run :: rest)) then
        settleRuns chosen (down.run :: down.before) down.after
      else before.reverse ++ after
    else settleRuns chosen (run :: before) rest
termination_by (before.countP chosen + after.countP chosen, weight after)
decreasing_by
  · have hrun : (run :: rest).countP chosen = rest.countP chosen + 1 := by
      rw [List.countP_cons_of_pos _hc]
    have hdown : (down.run :: down.before).countP chosen ≤ down.before.countP chosen + 1 := by
      rw [List.countP_cons]; split <;> omega
    simp only [runs, runsLeft, down, up] at _h hdown
    rw [Prod.lex_def]
    simp only
    omega
  · have hrun : (run :: rest).countP chosen = rest.countP chosen := by
      rw [List.countP_cons_of_neg (by simpa using _hc)]
    have hback : (run :: before).countP chosen = before.countP chosen := by
      rw [List.countP_cons_of_neg (by simpa using _hc)]
    rw [Prod.lex_def]
    simp only [hrun, hback, weight_cons]
    exact .inr ⟨trivial, by omega⟩

/-- A run of removed lines. -/
def isRemoval : Change α → Bool
  | .remove _ => true
  | _ => false

/-- A run of added lines. -/
def isAddition : Change α → Bool
  | .add _ => true
  | _ => false

/-- The script with its removed runs settled and then its added runs. -/
def settle (s : Script α) : Script α :=
  settleRuns isAddition [] (settleRuns isRemoval [] s)

end AnchoredBlocks.LineDiff
