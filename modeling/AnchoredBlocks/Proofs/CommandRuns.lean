-- What the commands have in common. Checking, a dry run and a real run make the
-- same plan, so they end with the same exit code and agree in what they tell. Only
-- a real run that tells of a fresh patch changes the files, and it has done it.
import AnchoredBlocks.Console.Session
import AnchoredBlocks.Proofs.SettledFiles

namespace AnchoredBlocks.Console

/-! ## What a run tells -/

/-- What an outcome line tells about a patch. -/
inductive Verdict where
  | isApplied
  | notApplied
  | alreadyApplied
  | wouldApply
  | nowApplied
  deriving DecidableEq, Repr

/-- The mark at the head of the lines. -/
inductive Mark where
  | done
  | todo
  | dry
  deriving DecidableEq, Repr

def Mark.text (colours : Bool) : Mark → String
  | .done => doneMark colours
  | .todo => openMark colours
  | .dry => paint colours .cyan "[DRY RUN - nothing written]"

namespace Verdict

def mark : Verdict → Mark
  | .isApplied => .done
  | .nowApplied => .done
  | .wouldApply => .dry
  | _ => .todo

/-- The first words of an outcome line. -/
def lead : Verdict → String
  | .isApplied => "Applied ("
  | .notApplied => "Not applied ("
  | .alreadyApplied => "Already applied to "
  | .wouldApply => "Would apply to "
  | .nowApplied => "Applied to "

/-- All words of an outcome line. Where they name the lines of the block, they name them
alike. -/
def words (p : Plan) (v : Verdict) : String :=
  v.lead ++ p.file.text ++
    match v with
    | .isApplied => ", " ++ linesLabel p ++ ")"
    | .notApplied => ", block at " ++ linesLabel p ++ ")"
    | .alreadyApplied => ""
    | _ => " (" ++ linesLabel p ++ ")"

/-- The outcome line. That a run is dry stands on a line of its own before it. -/
def lines (colours : Bool) (d : Definition) (p : Plan) (v : Verdict) : String :=
  if v.mark = .dry then
    line (v.mark.text colours) ++ outcomeLine (doneMark colours) d (v.words p)
  else outcomeLine (v.mark.text colours) d (v.words p)

end Verdict

/-- The run tells it, with or without a diff before. -/
def Run.Tells (r : Run) (colours : Bool) (d : Definition) (p : Plan) (v : Verdict) : Prop :=
  r.printed = v.lines colours d p ∨ r.printed = diffText colours p ++ v.lines colours d p

/-! ## No two verdicts read alike -/

section Verdicts

variable {colours : Bool} {d : Definition} {p : Plan} {v v' : Verdict}

theorem Mark.eq_of_append {m m' : Mark} {rest rest' : String}
    (h : m.text colours ++ rest = m'.text colours ++ rest') : m = m' := by
  have hchars := congrArg String.toList h
  cases m <;> cases m' <;> cases colours <;>
    simp [text, doneMark, openMark, paint, Style.opening] at hchars ⊢

theorem Mark.append_ne_newline (m : Mark) (rest rest' : String) :
    m.text colours ++ rest ≠ "\n" ++ rest' := by
  intro h
  have hchars := congrArg String.toList h
  cases m <;> cases colours <;> simp [text, doneMark, openMark, paint, Style.opening] at hchars

theorem Verdict.lines_eq (v : Verdict) : v.lines colours d p = v.mark.text colours ++
    ((if v.mark = .dry then "\n" ++ doneMark colours else "") ++
      (" " ++ d.id ++ ": " ++ v.words p ++ "\n")) := by
  unfold lines
  split <;> simp [outcomeLine, line, String.append_assoc]

theorem Verdict.take_words (v : Verdict) : (v.words p).toList.take 9 = v.lead.toList.take 9 := by
  unfold words
  rw [String.append_assoc, String.toList_append, List.take_append_of_le_length]
  cases v <;> decide

theorem Verdict.eq_of_words (h : v.words p = v'.words p) : v = v' := by
  have hlead := congrArg (fun text => text.toList.take 9) h
  simp only [take_words] at hlead
  cases v <;> cases v' <;> first | rfl | exact absurd hlead (by decide)

/-- Verdicts with one mark differ in their words, and others differ in their marks. -/
theorem Verdict.eq_of_lines (h : v.lines colours d p = v'.lines colours d p) : v = v' := by
  rw [lines_eq, lines_eq] at h
  have hmark := Mark.eq_of_append h
  rw [hmark] at h
  apply eq_of_words (p := p)
  simpa using h

/-- A diff begins with an empty line, and no verdict does. -/
theorem diffText_append_ne (rest : String) :
    diffText colours p ++ rest ≠ v.lines colours d p := by
  have hdiff : ∃ more, diffText colours p ++ rest = "\n" ++ more := by
    simp only [diffText, line, String.append_assoc]
    exact ⟨_, rfl⟩
  obtain ⟨more, hmore⟩ := hdiff
  rw [hmore, Verdict.lines_eq]
  exact (Mark.append_ne_newline v.mark _ _).symm

/-- A run tells one thing at most. -/
theorem Run.Tells.unique {r : Run} (h : r.Tells colours d p v) (h' : r.Tells colours d p v') :
    v = v' := by
  rcases h with h | h <;> rcases h' with h' | h'
  · exact Verdict.eq_of_lines (h.symm.trans h')
  · exact absurd (h'.symm.trans h) (diffText_append_ne _)
  · exact absurd (h.symm.trans h') (diffText_append_ne _)
  · exact Verdict.eq_of_lines ((String.append_right_inj _).mp (h.symm.trans h'))

theorem alreadyLine_eq : alreadyLine colours d p.file = Verdict.lines colours d p .alreadyApplied := by
  simp [alreadyLine, Verdict.lines, Verdict.mark, Mark.text, Verdict.words, Verdict.lead]

theorem appliedLine_eq : appliedLine colours d p p.file = Verdict.lines colours d p .nowApplied := by
  simp [appliedLine, Verdict.lines, Verdict.mark, Mark.text, Verdict.words, Verdict.lead,
    String.append_assoc]

theorem dryRunLines_eq : dryRunLines colours d p = Verdict.lines colours d p .wouldApply := by
  simp [dryRunLines, Verdict.lines, Verdict.mark, Mark.text, Verdict.words, Verdict.lead,
    String.append_assoc]

theorem checkLine_eq : checkLine colours d p =
    Verdict.lines colours d p (if p.isDone then .isApplied else .notApplied) := by
  unfold checkLine
  split <;>
    simp [Verdict.lines, Verdict.mark, Mark.text, Verdict.words, Verdict.lead, String.append_assoc]

end Verdicts

/-! ## One run -/

/-- The run failed: it told nothing, and left the tree as it was. -/
structure Run.Fails (r : Run) (t : FileTree) : Prop where
  code : r.code = 1
  printed : r.printed = ""
  tree : r.tree = t

/-- The run told the verdict on the plan. It has carried the plan out if it says so, and
otherwise it has left the tree as it was. -/
inductive Run.Ends (colours : Bool) (t : FileTree) (d : Definition) (p : Plan) : Verdict → Run → Prop
  | same {r : Run} {v : Verdict} : v ≠ .nowApplied → r.code = 0 → r.Tells colours d p v →
      r.tree = t → Ends colours t d p v r
  | changed {r : Run} : p.isDone = false → r.code = 0 → r.Tells colours d p .nowApplied →
      r.tree.read p.file = .ok p.patched → Ends colours t d p .nowApplied r

namespace Run.Ends

variable {colours : Bool} {t : FileTree} {d : Definition} {p : Plan} {v v' : Verdict} {r : Run}

theorem code (h : Run.Ends colours t d p v r) : r.code = 0 := by cases h <;> assumption

theorem tells (h : Run.Ends colours t d p v r) : r.Tells colours d p v := by
  cases h <;> assumption

theorem tells_iff (h : Run.Ends colours t d p v r) : r.Tells colours d p v' ↔ v' = v := by
  constructor
  · exact fun h' => h'.unique h.tells
  · rintro rfl
    exact h.tells

theorem tree_of_ne (h : Run.Ends colours t d p v r) (hv : v ≠ .nowApplied) : r.tree = t := by
  cases h with
  | same _ _ _ htree => exact htree
  | changed => exact absurd rfl hv

/-- What the file of the plan holds is not what it held. -/
theorem changed_file {w : Workspace} (h : Run.Ends colours t d p .nowApplied r)
    (hp : d.plan t w = .ok p) : t.read p.file = .ok p.content ∧
      r.tree.read p.file = .ok p.patched ∧ p.patched ≠ p.content := by
  obtain ⟨hread, _, hfits, _⟩ := Definition.plan_facts hp
  cases h with
  | same hv => exact absurd rfl hv
  | changed hdone _ _ hpatched =>
    refine ⟨hread, hpatched, fun hsame => ?_⟩
    rw [(Plan.isDone_iff hfits.1).mpr hsame] at hdone
    cases hdone

theorem tree_ne {w : Workspace} (h : Run.Ends colours t d p .nowApplied r)
    (hp : d.plan t w = .ok p) : r.tree ≠ t := by
  obtain ⟨hread, hpatched, hne⟩ := h.changed_file hp
  intro hsame
  rw [hsame, hread] at hpatched
  exact hne (Except.ok.inj hpatched).symm

end Run.Ends

/-- What an application has to tell. -/
def applyVerdict (dryRun : Bool) (p : Plan) : Verdict :=
  if p.isDone then .alreadyApplied else if dryRun then .wouldApply else .nowApplied

/-- What a check has to tell. -/
def checkVerdict (p : Plan) : Verdict := if p.isDone then .isApplied else .notApplied

section Runs

variable {colours : Bool} {verbosity : Nat} {t : FileTree} {w : Workspace} {d : Definition}
  {p : Plan} {dryRun diff : Bool}

theorem fails_applyRun {failure : PatchFailure} (h : d.plan t w = .error failure) :
    (applyRun colours verbosity t w d dryRun diff).Fails t := by
  unfold applyRun
  simp only [h]
  exact ⟨rfl, rfl, rfl⟩

theorem fails_checkRun {failure : PatchFailure} (h : d.plan t w = .error failure) :
    (checkRun colours verbosity t w d).Fails t := by
  unfold checkRun
  simp only [h]
  exact ⟨rfl, rfl, rfl⟩

theorem ends_checkRun (h : d.plan t w = .ok p) :
    Run.Ends colours t d p (checkVerdict p) (checkRun colours verbosity t w d) := by
  unfold checkRun checkVerdict
  simp only [h]
  refine .same ?_ rfl (.inl checkLine_eq) rfl
  split <;> decide

theorem tells_of_shown {r : Run} {v : Verdict} (diff : Bool)
    (h : r.printed = (if diff then diffText colours p else "") ++ v.lines colours d p) :
    r.Tells colours d p v := by
  cases diff with
  | true => exact .inr h
  | false =>
    left
    rw [h, if_neg Bool.false_ne_true, String.empty_append]

/-- An application with something to do does it, unless the run is dry. -/
theorem ends_applyRun (ht : t.Closed) (h : d.plan t w = .ok p) :
    Run.Ends colours t d p (applyVerdict dryRun p)
      (applyRun colours verbosity t w d dryRun diff) := by
  unfold applyRun applyVerdict
  simp only [h]
  cases hdone : p.isDone with
  | true =>
    simp only [if_true]
    exact .same (by decide) rfl (.inl alreadyLine_eq) rfl
  | false =>
    simp only [Bool.false_eq_true, if_false]
    cases dryRun with
    | true =>
      simp only [if_true]
      refine .same (by decide) rfl (tells_of_shown diff ?_) rfl
      rw [← dryRunLines_eq]
      rfl
    | false =>
      obtain ⟨tree, hcarry, hread⟩ := Plan.exists_applied ht h hdone
      simp only [Bool.false_eq_true, if_false, hcarry]
      refine .changed hdone rfl (tells_of_shown diff ?_) hread
      rw [← appliedLine_eq]
      rfl

theorem extractRun_facts (colours : Bool) (verbosity : Nat) (t : FileTree) (w : Workspace)
    (d : Definition) : ((extractRun colours verbosity t w d).code = 0 ∨
      (extractRun colours verbosity t w d).code = 1) ∧
      (extractRun colours verbosity t w d).tree = t := by
  unfold extractRun
  cases d.foundBlock t w with
  | error failure => exact ⟨.inr rfl, rfl⟩
  | ok found => exact ⟨.inl rfl, rfl⟩

end Runs

/-! ## Command lines -/

/-- The words are a command line with this workspace and this command. -/
def Order (words : List String) (workspace : Option String) (command : Command) : Prop :=
  ∃ c, request? words = some (.run c) ∧ c.workspace = workspace ∧ c.command = command

/-- In the workspace there is a definition for a target and a replacement, and a plan for the
definition. -/
def Plans (t : FileTree) (workspace : Option String) (target : TargetArguments)
    (replacement : ReplacementArguments) (d : Definition) (p : Plan) : Prop :=
  ∃ w, workspaceOf t workspace = .ok w ∧ definitionOf t target (some replacement) = .ok d ∧
    d.plan t w = .ok p

/-- The run of a command in a workspace, with its definition. -/
def Command.run (colours : Bool) (verbosity : Nat) (t : FileTree) (w : Workspace)
    (d : Definition) : Command → Run
  | .apply _ _ dryRun diff => applyRun colours verbosity t w d dryRun diff
  | .check .. => checkRun colours verbosity t w d
  | .extract _ => extractRun colours verbosity t w d

section Orders

variable {t : FileTree} {words : List String} {workspace : Option String} {command : Command}
  {target : TargetArguments} {replacement : ReplacementArguments} {d d' : Definition}
  {p p' : Plan} {dryRun diff : Bool}

theorem Plans.exists_plan (h : Plans t workspace target replacement d p) :
    ∃ w, d.plan t w = .ok p := by
  obtain ⟨w, _, _, hp⟩ := h
  exact ⟨w, hp⟩

theorem Plans.unique (h : Plans t workspace target replacement d p)
    (h' : Plans t workspace target replacement d' p') : d = d' ∧ p = p' := by
  obtain ⟨w, hw, hd, hp⟩ := h
  obtain ⟨w', hw', hd', hp'⟩ := h'
  obtain rfl : w = w' := Except.ok.inj (hw.symm.trans hw')
  obtain rfl : d = d' := Except.ok.inj (hd.symm.trans hd')
  exact ⟨rfl, Except.ok.inj (hp.symm.trans hp')⟩

/-- A command line has no workspace or no definition, or its command is run with both. -/
theorem session_cases (colours : Bool) (t : FileTree) (h : Order words workspace command) :
    ((session words colours t).Fails t ∧ ∀ w d, workspaceOf t workspace = .ok w →
      definitionOf t command.parts.1 command.parts.2 ≠ .ok d) ∨
    ∃ w d verbosity, workspaceOf t workspace = .ok w ∧
      definitionOf t command.parts.1 command.parts.2 = .ok d ∧
      session words colours t = command.run colours verbosity t w d := by
  obtain ⟨c, hc, rfl, rfl⟩ := h
  unfold session CommandLine.run
  simp only [hc]
  cases hw : workspaceOf t c.workspace with
  | error complaint =>
    refine .inl ⟨⟨rfl, rfl, rfl⟩, fun w d hnone => ?_⟩
    cases hnone
  | ok w =>
    cases hd : definitionOf t c.command.parts.1 c.command.parts.2 with
    | error complaint =>
      refine .inl ⟨⟨rfl, rfl, rfl⟩, fun w d _ hnone => ?_⟩
      cases hnone
    | ok d =>
      refine .inr ⟨w, d, if c.quiet then 0 else c.verbosity, rfl, rfl, ?_⟩
      cases c.command <;> rfl

/-- A command that needs a plan fails without one. -/
theorem fails_session (colours : Bool) (h : Order words workspace command)
    (hparts : command.parts = (target, some replacement))
    (hnone : ¬ ∃ d p, Plans t workspace target replacement d p) :
    (session words colours t).Fails t := by
  rcases session_cases colours t h with ⟨hfails, _⟩ | ⟨w, d, verbosity, hw, hd, hrun⟩
  · exact hfails
  · rw [hparts] at hd
    cases hp : d.plan t w with
    | ok p => exact absurd ⟨d, p, w, hw, hd, hp⟩ hnone
    | error failure =>
      rw [hrun]
      cases command with
      | apply => exact fails_applyRun hp
      | check => exact fails_checkRun hp
      | extract => cases hparts

theorem session_of_plans (colours : Bool) (h : Order words workspace command)
    (hparts : command.parts = (target, some replacement))
    (hplans : Plans t workspace target replacement d p) :
    ∃ w verbosity, d.plan t w = .ok p ∧
      session words colours t = command.run colours verbosity t w d := by
  obtain ⟨w, hw, hd, hp⟩ := hplans
  rcases session_cases colours t h with ⟨_, hnone⟩ | ⟨w', d', verbosity, hw', hd', hrun⟩
  · rw [hparts] at hnone
    exact absurd hd (hnone w d hw)
  · rw [hparts] at hd'
    obtain rfl : w = w' := Except.ok.inj (hw.symm.trans hw')
    obtain rfl : d = d' := Except.ok.inj (hd.symm.trans hd')
    exact ⟨w, verbosity, hp, hrun⟩

theorem ends_session_check (colours : Bool)
    (h : Order words workspace (.check target replacement))
    (hplans : Plans t workspace target replacement d p) :
    Run.Ends colours t d p (checkVerdict p) (session words colours t) := by
  obtain ⟨w, verbosity, hp, hrun⟩ := session_of_plans colours h rfl hplans
  rw [hrun]
  exact ends_checkRun hp

theorem ends_session_apply (colours : Bool) (ht : t.Closed)
    (h : Order words workspace (.apply target replacement dryRun diff))
    (hplans : Plans t workspace target replacement d p) :
    Run.Ends colours t d p (applyVerdict dryRun p) (session words colours t) := by
  obtain ⟨w, verbosity, hp, hrun⟩ := session_of_plans colours h rfl hplans
  rw [hrun]
  exact ends_applyRun ht hp

theorem session_extract (colours : Bool) (t : FileTree)
    (h : Order words workspace (.extract target)) :
    ((session words colours t).code = 0 ∨ (session words colours t).code = 1) ∧
      (session words colours t).tree = t := by
  rcases session_cases colours t h with ⟨hfails, _⟩ | ⟨w, d, verbosity, _, _, hrun⟩
  · exact ⟨.inr hfails.code, hfails.tree⟩
  · rw [hrun]
    exact extractRun_facts colours verbosity t w d

end Orders

/-! ## The contract -/

section Contract

variable {t : FileTree} {words : List String} {workspace : Option String} {command : Command}
  {target : TargetArguments} {replacement : ReplacementArguments} {diff : Bool}

theorem checkVerdict_ne_nowApplied (p : Plan) : checkVerdict p ≠ .nowApplied := by
  unfold checkVerdict
  split <;> decide

theorem applyVerdict_true_ne_nowApplied (p : Plan) : applyVerdict true p ≠ .nowApplied := by
  unfold applyVerdict
  split <;> decide

/-- A run succeeds or fails, and only a real run changes the files. -/
theorem session_facts (colours : Bool) (ht : t.Closed) (h : Order words workspace command) :
    ((session words colours t).code = 0 ∨
      (session words colours t).code = 1 ∧ (session words colours t).tree = t) ∧
    ((∀ target replacement diff, command ≠ .apply target replacement false diff) →
      (session words colours t).tree = t) := by
  cases command with
  | extract target =>
    obtain ⟨hcode, htree⟩ := session_extract colours t h
    exact ⟨hcode.imp_right fun hcode => ⟨hcode, htree⟩, fun _ => htree⟩
  | check target replacement =>
    by_cases hplans : ∃ d p, Plans t workspace target replacement d p
    · obtain ⟨d, p, hplans⟩ := hplans
      have hends := ends_session_check colours h hplans
      exact ⟨.inl hends.code, fun _ => hends.tree_of_ne (checkVerdict_ne_nowApplied p)⟩
    · have hfails := fails_session colours h rfl hplans
      exact ⟨.inr ⟨hfails.code, hfails.tree⟩, fun _ => hfails.tree⟩
  | apply target replacement dryRun diff =>
    by_cases hplans : ∃ d p, Plans t workspace target replacement d p
    · obtain ⟨d, p, hplans⟩ := hplans
      have hends := ends_session_apply colours ht h hplans
      refine ⟨.inl hends.code, fun hdry => ?_⟩
      cases dryRun with
      | false => exact absurd rfl (hdry _ _ _)
      | true => exact hends.tree_of_ne (applyVerdict_true_ne_nowApplied p)
    · have hfails := fails_session colours h rfl hplans
      exact ⟨.inr ⟨hfails.code, hfails.tree⟩, fun _ => hfails.tree⟩

/-- A real run changes the files when it tells so, and at no other time. -/
theorem session_writes (colours : Bool) (ht : t.Closed)
    (h : Order words workspace (.apply target replacement false diff)) :
    ((session words colours t).tree ≠ t ↔ (session words colours t).code = 0 ∧ ∃ d p,
      Plans t workspace target replacement d p ∧
        (session words colours t).Tells colours d p .nowApplied) ∧
    ∀ d p, Plans t workspace target replacement d p → (session words colours t).tree ≠ t →
      t.read p.file = .ok p.content ∧
      (session words colours t).tree.read p.file = .ok p.patched ∧ p.patched ≠ p.content := by
  refine ⟨⟨fun hne => ?_, ?_⟩, fun d p hplans hne => ?_⟩
  · by_cases hplans : ∃ d p, Plans t workspace target replacement d p
    · obtain ⟨d, p, hplans⟩ := hplans
      have hends := ends_session_apply colours ht h hplans
      refine ⟨hends.code, d, p, hplans, ?_⟩
      rw [hends.tells_iff]
      exact (not_imp_comm.mp hends.tree_of_ne hne).symm
    · exact absurd (fails_session colours h rfl hplans).tree hne
  · rintro ⟨_, d, p, hplans, htells⟩
    have hends := ends_session_apply colours ht h hplans
    rw [hends.tells_iff] at htells
    obtain ⟨w, hp⟩ := hplans.exists_plan
    exact (htells ▸ hends).tree_ne hp
  · have hends := ends_session_apply colours ht h hplans
    have hverdict := not_imp_comm.mp hends.tree_of_ne hne
    obtain ⟨w, hp⟩ := hplans.exists_plan
    exact (hverdict ▸ hends).changed_file hp

/-- Every command line succeeds or fails, and a failure leaves the files as they are. So does
every run but a real one. A real run changes them when it tells that the patch is applied now,
and then the file holds what was planned. A check, a dry run and a real run of the same patch
end with the same code, and each tells of the plan what the others tell of it. -/
theorem the_commands_keep_their_contract (t : FileTree) (ht : t.Closed) (colours : Bool) :
    (∀ words workspace command, Order words workspace command →
      ((session words colours t).code = 0 ∨
        (session words colours t).code = 1 ∧ (session words colours t).tree = t) ∧
      ((∀ target replacement diff, command ≠ .apply target replacement false diff) →
        (session words colours t).tree = t)) ∧
    (∀ words workspace target replacement diff,
      Order words workspace (.apply target replacement false diff) →
      ((session words colours t).tree ≠ t ↔ (session words colours t).code = 0 ∧ ∃ d p,
        Plans t workspace target replacement d p ∧
          (session words colours t).Tells colours d p .nowApplied) ∧
      ∀ d p, Plans t workspace target replacement d p → (session words colours t).tree ≠ t →
        t.read p.file = .ok p.content ∧
        (session words colours t).tree.read p.file = .ok p.patched ∧ p.patched ≠ p.content) ∧
    ∀ checking dry real workspace target replacement diff diff',
      Order checking workspace (.check target replacement) →
      Order dry workspace (.apply target replacement true diff) →
      Order real workspace (.apply target replacement false diff') →
      (session dry colours t).code = (session checking colours t).code ∧
      (session real colours t).code = (session checking colours t).code ∧
      ((session checking colours t).code = 0 ↔
        ∃ d p, Plans t workspace target replacement d p) ∧
      ∀ d p, Plans t workspace target replacement d p →
        ((session checking colours t).Tells colours d p .isApplied ∨
          (session checking colours t).Tells colours d p .notApplied) ∧
        ((session checking colours t).Tells colours d p .isApplied ↔
          (session dry colours t).Tells colours d p .alreadyApplied) ∧
        ((session checking colours t).Tells colours d p .isApplied ↔
          (session real colours t).Tells colours d p .alreadyApplied) ∧
        ((session checking colours t).Tells colours d p .notApplied ↔
          (session dry colours t).Tells colours d p .wouldApply) ∧
        ((session checking colours t).Tells colours d p .notApplied ↔
          (session real colours t).Tells colours d p .nowApplied) := by
  refine ⟨fun words workspace command h => session_facts colours ht h,
    fun words workspace target replacement diff h => session_writes colours ht h, ?_⟩
  intro checking dry real workspace target replacement diff diff' hchecking hdry hreal
  by_cases hplans : ∃ d p, Plans t workspace target replacement d p
  · obtain ⟨d, p, hplans⟩ := hplans
    have hcheck := ends_session_check colours hchecking hplans
    have hdryEnds := ends_session_apply colours ht hdry hplans
    have hrealEnds := ends_session_apply colours ht hreal hplans
    rw [hcheck.code, hdryEnds.code, hrealEnds.code]
    refine ⟨rfl, rfl, ⟨fun _ => ⟨d, p, hplans⟩, fun _ => rfl⟩, fun d' p' hplans' => ?_⟩
    obtain ⟨rfl, rfl⟩ := hplans.unique hplans'
    simp only [hcheck.tells_iff, hdryEnds.tells_iff, hrealEnds.tells_iff]
    cases hdone : p.isDone <;> simp [checkVerdict, applyVerdict, hdone]
  · have hcheck := fails_session colours hchecking rfl hplans
    rw [hcheck.code, (fails_session colours hdry rfl hplans).code,
      (fails_session colours hreal rfl hplans).code]
    exact ⟨rfl, rfl, ⟨nofun, fun h => absurd h hplans⟩,
      fun d p hplan => absurd ⟨d, p, hplan⟩ hplans⟩

end Contract

/-- The words for the link patch of the small workspace, behind the name of a command. -/
def linkWords : List String :=
  ["link", "--anchor", "k> ", "--start", "<", "--end", "</k>", "--unique-anchor",
    "--replacement", "<k> new </k>"]

def linkTarget : TargetArguments :=
  ⟨some "link", none, some "k> ", some "<", some "</k>", true⟩

def linkReplacement : ReplacementArguments := ⟨some "<k> new </k>", none⟩

/-- What the link words say, with the flags that were read before. -/
def linkGiven (flags : List Switch) : Given :=
  { flags := .uniqueAnchor :: flags
    values := [(.replacement, "<k> new </k>"), (.stop, "</k>"), (.start, "<"), (.anchor, "k> ")]
    file := some "link" }

theorem readWords_linkWords (more : List Switch) :
    readWords (targetOptions ++ replacementOptions ++ more) false {} linkWords =
      some (.complete (linkGiven []) []) := by
  cbv

theorem readWords_dry_linkWords :
    readWords (targetOptions ++ replacementOptions ++ [.dryRun, .diff] ++ sharedOptions) false {}
      ("-n" :: linkWords) = some (.complete (linkGiven [.dryRun]) []) := by
  cbv

/-- A command line that begins with its command has all its options behind it. -/
theorem request?_of_command {name : String} {known : List Switch} {rest left : List String}
    {late : Given} (hname : commandOptions? name = some known)
    (hrest : readWords (known ++ sharedOptions) false {} rest = some (.complete late left)) :
    request? (name :: rest) = (commandLine? {} late name).map .run := by
  have hearly : readWords (.version :: sharedOptions) true {} (name :: rest) =
      some (.complete {} (name :: rest)) := by
    unfold commandOptions? at hname
    split at hname
    · cbv
    · cbv
    · cbv
    · cases hname
  unfold request?
  simp only [hearly, hname, Option.bind_eq_bind, Option.bind_some, hrest]

theorem plans_link : Plans smallTree none linkTarget linkReplacement
    (Definition.linkPatch "<k> new </k>") (Definition.linkPlan "<k> new </k>") :=
  ⟨.free ⟨"/ws"⟩, rfl, rfl, Definition.plan_linkPatch _⟩

/-- A check tells that the link patch is open, a dry run that it would be applied, and a real
run applies it. -/
theorem the_commands_agree_on_the_link_patch :
    (session ("check" :: linkWords) false smallTree).Tells false
      (Definition.linkPatch "<k> new </k>") (Definition.linkPlan "<k> new </k>") .notApplied ∧
    (session ("apply" :: "-n" :: linkWords) false smallTree).Tells false
      (Definition.linkPatch "<k> new </k>") (Definition.linkPlan "<k> new </k>") .wouldApply ∧
    (session ("apply" :: linkWords) false smallTree).Tells false
      (Definition.linkPatch "<k> new </k>") (Definition.linkPlan "<k> new </k>") .nowApplied ∧
    (session ("apply" :: "-n" :: linkWords) false smallTree).tree = smallTree ∧
    (session ("apply" :: linkWords) false smallTree).tree ≠ smallTree ∧
    (session ("apply" :: linkWords) false smallTree).code = 0 := by
  have hcheck : Order ("check" :: linkWords) none (.check linkTarget linkReplacement) :=
    ⟨_, request?_of_command rfl (readWords_linkWords _), rfl, rfl⟩
  have hdry : Order ("apply" :: "-n" :: linkWords) none
      (.apply linkTarget linkReplacement true false) :=
    ⟨_, request?_of_command rfl readWords_dry_linkWords, rfl, rfl⟩
  have hreal : Order ("apply" :: linkWords) none
      (.apply linkTarget linkReplacement false false) :=
    ⟨_, request?_of_command rfl ((List.append_assoc ..).symm ▸ readWords_linkWords _), rfl, rfl⟩
  obtain ⟨hall, hwrites, hagree⟩ :=
    the_commands_keep_their_contract smallTree closed_smallTree false
  obtain ⟨_, hrealCode, hcode, hsame⟩ := hagree _ _ _ _ _ _ _ _ hcheck hdry hreal
  obtain ⟨_, _, _, hwould, hnow⟩ := hsame _ _ plans_link
  have hopen := (ends_session_check false hcheck plans_link).tells
  have hzero := hrealCode.trans (hcode.mpr ⟨_, _, plans_link⟩)
  refine ⟨hopen, hwould.mp hopen, hnow.mp hopen, ?_, ?_, hzero⟩
  · exact (hall _ _ _ hdry).2 (by simp)
  · exact (hwrites _ _ _ _ _ hreal).1.mpr ⟨hzero, _, _, plans_link, hnow.mp hopen⟩

end AnchoredBlocks.Console
