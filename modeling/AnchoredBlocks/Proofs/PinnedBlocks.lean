-- A plan and an extraction mean the same block. A plan also asks for the fresh block, and
-- asks for it first, so it can fail where an extraction does not. Once there is a fresh
-- block, the two find the same block or fail alike, and an extraction shows what an
-- application would replace.
import AnchoredBlocks.Proofs.CommandRuns
import AnchoredBlocks.Proofs.CompleteDefinitions

namespace AnchoredBlocks

/-! ## A plan is two halves -/

/-- The plan is the found block with the fresh one. -/
structure Plan.Joins (p : Plan) (found : FoundBlock) (fresh : Bytes) : Prop where
  file : p.file = found.file
  content : p.content = found.content
  span : p.span = found.span
  block : p.block = found.block
  fresh : p.fresh = fresh

theorem Plan.joins_iff {p : Plan} {found : FoundBlock} {fresh : Bytes} :
    p.Joins found fresh ↔ p.found = found ∧ p.fresh = fresh := by
  constructor
  · intro h
    obtain ⟨file, content, span⟩ := found
    obtain ⟨⟨_, _, _⟩, _⟩ := p
    obtain ⟨hfile, hcontent, hspan, _, hfresh⟩ := h
    simp only [Plan.file, Plan.content, Plan.span] at hfile hcontent hspan
    exact ⟨by rw [hfile, hcontent, hspan], hfresh⟩
  · rintro ⟨rfl, rfl⟩
    exact ⟨rfl, rfl, rfl, rfl, rfl⟩

namespace Definition

variable {d : Definition} {t : FileTree} {w : Workspace} {p : Plan}

/-- Behind a fresh block the check has passed, so the block is found as without it. -/
theorem foundBlock_of_freshBlock {fresh : Bytes} (h : d.freshBlock t = .ok fresh) :
    d.foundBlock t w = d.readBlock t w :=
  foundBlock_of_checkTarget (checkTarget_of_check (freshBlock_eq_ok_iff.mp h).1)

/-- A block is found in the file that the definition means, as that file reads. -/
theorem foundBlock_eq_ok_iff {found : FoundBlock} : d.foundBlock t w = .ok found ↔
    d.checkTarget = .ok () ∧ w.target t d = .ok found.file ∧
      t.readText found.file = .ok found.content ∧ d.findBlock found.content = .ok found.span := by
  rw [← readBlock_eq_ok_iff]
  cases hcheck : d.checkTarget with
  | error faults =>
    unfold foundBlock
    simp [hcheck]
  | ok =>
    rw [foundBlock_of_checkTarget hcheck]
    simp

/-- There is a plan exactly if there are both of its halves. -/
theorem plan_eq_ok_iff_joins : d.plan t w = .ok p ↔ ∃ fresh found,
    d.freshBlock t = .ok fresh ∧ d.foundBlock t w = .ok found ∧ p.Joins found fresh := by
  rw [plan_eq_ok_iff]
  constructor
  · rintro ⟨hfresh, hread⟩
    refine ⟨p.fresh, p.found, hfresh, ?_, Plan.joins_iff.mpr ⟨rfl, rfl⟩⟩
    rw [foundBlock_of_freshBlock hfresh, hread]
  · rintro ⟨fresh, found, hfresh, hfound, hjoins⟩
    obtain ⟨rfl, rfl⟩ := Plan.joins_iff.mp hjoins
    rw [foundBlock_of_freshBlock hfresh] at hfound
    exact ⟨hfresh, hfound⟩

theorem plan_of_foundBlock_error {fresh : Bytes} {failure : PatchFailure}
    (hfresh : d.freshBlock t = .ok fresh) (hfound : d.foundBlock t w = .error failure) :
    d.plan t w = .error failure := by
  rw [foundBlock_of_freshBlock hfresh] at hfound
  exact plan_eq_error_iff.mpr (.inr ⟨⟨fresh, hfresh⟩, hfound⟩)

/-- The replacement has no say in where the block is. -/
theorem readBlock_with_replacement (d : Definition) (t : FileTree) (w : Workspace)
    (replacement : Replacement) : readBlock { d with replacement } t w = d.readBlock t w := rfl

theorem checkTarget_with_replacement (d : Definition) (replacement : Replacement) :
    checkTarget { d with replacement } = d.checkTarget := rfl

theorem foundBlock_with_replacement (d : Definition) (t : FileTree) (w : Workspace)
    (replacement : Replacement) : foundBlock { d with replacement } t w = d.foundBlock t w := by
  unfold foundBlock
  rw [checkTarget_with_replacement, readBlock_with_replacement]

end Definition

namespace Console

/-! ## Extraction -/

section Extraction

variable {t : FileTree} {workspace : Option String} {target : TargetArguments}
  {replacement : ReplacementArguments} {d : Definition} {p : Plan}

/-- Where the words do with a replacement they do without one, and they mean the same
block. -/
theorem definitionOf_none (h : definitionOf t target (some replacement) = .ok d) :
    ∃ d', definitionOf t target none = .ok d' ∧ ∀ w, d'.foundBlock t w = d.foundBlock t w := by
  cases hpatch : target.patch with
  | some path =>
    -- A patch file is read alike by all commands.
    refine ⟨d, ?_, fun _ => rfl⟩
    rw [← h]
    unfold definitionOf definitionOfBy
    rw [hpatch]
  | none =>
    have hcheck : d.check = .ok () := check_of_definitionOfBy h
    refine ⟨{ d with replacement := {} }, ?_, fun w => d.foundBlock_with_replacement t w {}⟩
    have htarget : Definition.checkTarget { d with replacement := {} } = .ok () := by
      rw [d.checkTarget_with_replacement]
      exact Definition.checkTarget_of_check hcheck
    unfold definitionOf definitionOfBy at h ⊢
    rw [hpatch] at h ⊢
    simp only at h
    split at h
    · cases h
    · cases h
      simp only [Option.isSome_none, Bool.false_eq_true, if_false]
      exact htarget ▸ rfl

/-- The run shows the block, and leaves the tree as it was. -/
structure Run.Shows (r : Run) (t : FileTree) (block : Bytes) : Prop where
  code : r.code = 0
  printed : r.printed = line (Utf8.string block)
  tree : r.tree = t

theorem shows_extractRun (colours : Bool) (verbosity : Nat) {w : Workspace} {found : FoundBlock}
    (h : d.foundBlock t w = .ok found) :
    (extractRun colours verbosity t w d).Shows t found.block := by
  unfold extractRun
  rw [h]
  exact ⟨rfl, rfl, rfl⟩

/-- An extraction shows each block that is found for the same words with a replacement. -/
theorem shows_session (colours : Bool) {words : List String} {w : Workspace} {found : FoundBlock}
    (h : Order words workspace (.extract target)) (hw : workspaceOf t workspace = .ok w)
    (hd : definitionOf t target (some replacement) = .ok d)
    (hfound : d.foundBlock t w = .ok found) : (session words colours t).Shows t found.block := by
  obtain ⟨d', hd', hsame⟩ := definitionOf_none hd
  rcases session_cases colours t h with ⟨_, hnone⟩ | ⟨w', d'', verbosity, hw', hd'', hrun⟩
  · exact absurd hd' (hnone w d' hw)
  · obtain rfl : w = w' := Except.ok.inj (hw.symm.trans hw')
    obtain rfl : d' = d'' := Except.ok.inj (hd'.symm.trans hd'')
    rw [hrun]
    apply shows_extractRun
    rw [hsame, hfound]

/-- What a plan would replace is what an extraction shows. -/
theorem shows_session_of_plans (colours : Bool) {words : List String}
    (h : Order words workspace (.extract target))
    (hplans : Plans t workspace target replacement d p) :
    (session words colours t).Shows t p.block := by
  obtain ⟨w, hw, hd, hp⟩ := hplans
  obtain ⟨fresh, found, _, hfound, hjoins⟩ := Definition.plan_eq_ok_iff_joins.mp hp
  rw [hjoins.block]
  exact shows_session colours h hw hd hfound

end Extraction

/-! ## The law -/

/-- There is a plan exactly if there are a fresh block and a found one, and the plan joins the
two. Without a fresh block the plan fails as the fresh block does, and else it fails as the
search for the block does. What passes the check of a patch passes that of a target, and the
block is found in the file that is meant, as the file reads. So an extraction shows every block
that is found for the same words with a replacement, and does not fail where a check or an
application succeeds. -/
theorem what_is_planned_is_what_is_shown (t : FileTree) :
    (∀ (d : Definition) (w : Workspace),
      (∀ p, d.plan t w = .ok p ↔ ∃ fresh found, d.freshBlock t = .ok fresh ∧
        d.foundBlock t w = .ok found ∧ p.Joins found fresh) ∧
      (∀ failure, d.freshBlock t = .error failure → d.plan t w = .error failure) ∧
      (∀ fresh failure, d.freshBlock t = .ok fresh → d.foundBlock t w = .error failure →
        d.plan t w = .error failure) ∧
      (d.check = .ok () → d.checkTarget = .ok ()) ∧
      ∀ found, d.foundBlock t w = .ok found ↔ d.checkTarget = .ok () ∧
        w.target t d = .ok found.file ∧ t.readText found.file = .ok found.content ∧
        d.findBlock found.content = .ok found.span) ∧
    ∀ colours extracting workspace target replacement,
      Order extracting workspace (.extract target) →
      (∀ w d found, workspaceOf t workspace = .ok w →
        definitionOf t target (some replacement) = .ok d → d.foundBlock t w = .ok found →
        (session extracting colours t).Shows t found.block) ∧
      (∀ d p, Plans t workspace target replacement d p →
        (session extracting colours t).Shows t p.block) ∧
      ∀ running command, Order running workspace command →
        command.parts = (target, some replacement) → (session running colours t).code = 0 →
        (session extracting colours t).code = 0 := by
  constructor
  · intro d w
    refine ⟨?_, ?_, ?_, Definition.checkTarget_of_check, ?_⟩
    · intro p
      exact Definition.plan_eq_ok_iff_joins
    · intro failure hfresh
      exact Definition.plan_of_freshBlock_error hfresh
    · intro fresh failure hfresh hfound
      exact Definition.plan_of_foundBlock_error hfresh hfound
    · intro found
      exact Definition.foundBlock_eq_ok_iff
  · intro colours extracting workspace target replacement hextract
    refine ⟨?_, ?_, ?_⟩
    · intro w d found hw hd hfound
      exact shows_session colours hextract hw hd hfound
    · intro d p hplans
      exact shows_session_of_plans colours hextract hplans
    · intro running command hrunning hparts hcode
      by_cases hplans : ∃ d p, Plans t workspace target replacement d p
      · obtain ⟨d, p, hplans⟩ := hplans
        exact (shows_session_of_plans colours hextract hplans).code
      · have hfails := fails_session colours hrunning hparts hplans
        rw [hfails.code] at hcode
        cases hcode

/-- The words for the block of the link patch, behind the name of the command. -/
def linkTargetWords : List String :=
  ["link", "--anchor", "k> ", "--start", "<", "--end", "</k>", "--unique-anchor"]

theorem readWords_linkTargetWords :
    readWords (targetOptions ++ sharedOptions) false {} linkTargetWords = some (.complete
      ⟨[.uniqueAnchor], [(.stop, "</k>"), (.start, "<"), (.anchor, "k> ")], some "link"⟩ []) := by
  cbv

/-- The link block is shown as it stands in the notes. -/
theorem the_link_block_is_shown :
    (session ("extract" :: linkTargetWords) false smallTree).printed = "<k> old </k>\n" ∧
    (session ("extract" :: linkTargetWords) false smallTree).code = 0 := by
  have hextracting : Order ("extract" :: linkTargetWords) none (.extract linkTarget) :=
    ⟨_, request?_of_command rfl readWords_linkTargetWords, rfl, rfl⟩
  obtain ⟨_, hextract⟩ := what_is_planned_is_what_is_shown smallTree
  obtain ⟨_, hshows, _⟩ := hextract false _ none linkTarget linkReplacement hextracting
  have hshown := hshows _ _ plans_link
  exact ⟨hshown.printed.trans (by cbv), hshown.code⟩

end Console

end AnchoredBlocks
