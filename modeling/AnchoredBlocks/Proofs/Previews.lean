-- What a preview says is what the patch does. A plan made from a tree finds
-- nothing in its way when it is carried out in the same tree: the block is
-- still there, the span is still good and the file can still be replaced.
import AnchoredBlocks.Proofs.PlannedEdits

namespace AnchoredBlocks

variable {d : Definition} {t : FileTree} {w : Workspace} {p : Plan}

/-! ## A fresh plan -/

theorem Plan.carryOut_of_isDone (h : p.isDone = true) :
    p.carryOut t = .ok (.alreadyApplied p.file, t) := by
  unfold carryOut
  rw [if_pos h]

/-- A fresh plan with something to do does it, and the file then reads as planned. -/
theorem Plan.exists_applied (ht : t.Closed) (h : d.plan t w = .ok p) (hdone : p.isDone = false) :
    ∃ tree, p.carryOut t = .ok (.applied p.file p.fresh.length, tree) ∧
      tree.read p.file = .ok p.patched := by
  obtain ⟨hread, _, hfits, _⟩ := Definition.plan_facts h
  have hne : p.block ≠ p.fresh := of_decide_eq_false hdone
  have hpatched := patched_eq_splice hfits.1
  obtain ⟨tree, hwrite⟩ := FileTree.exists_replaceFile ht hread p.patched
  refine ⟨tree, ?_, FileTree.read_replaceFile hread hwrite⟩
  rw [hpatched] at hwrite
  exact carryOut_eq_applied_iff.mpr ⟨hdone, Edit.run_eq_written_iff.mpr
    ⟨rfl, rfl, p.content, p.block, hread, edit_found h, hne, hwrite⟩⟩

/-! ## Previews -/

namespace Definition

/-- What a patch did, told by its preview: nothing, or the splice that was planned. -/
inductive Foretold (t : FileTree) (p : Plan) :
    PatchOutcome → PatchOutcome × FileTree → Prop
  | nothing : p.isDone = true → Foretold t p (.alreadyApplied p.file) (.alreadyApplied p.file, t)
  | splice {tree : FileTree} : p.isDone = false → tree.read p.file = .ok p.patched →
      Foretold t p (.wouldApply p.file) (.applied p.file p.fresh.length, tree)

/-- Once planned, the preview and the patch both come to something. -/
theorem exists_foretold (ht : t.Closed) (h : d.plan t w = .ok p) : ∃ told done,
    d.preview t w = .ok told ∧ d.patch t w = .ok done ∧ Foretold t p told done := by
  rw [preview_of_plan h, patch_of_plan h]
  cases hdone : p.isDone with
  | true => exact ⟨_, _, rfl, Plan.carryOut_of_isDone hdone, .nothing hdone⟩
  | false =>
    obtain ⟨tree, hcarry, hread⟩ := Plan.exists_applied ht h hdone
    exact ⟨_, _, rfl, hcarry, .splice hdone hread⟩

/-- A preview and the patch in the same tree fail with the same failure, find the same
block in place already, or agree that the block is to be replaced. The patch then puts the
planned splice into the file, and otherwise it leaves the tree alone. In a file system every
entry stands in a directory, and no more is asked of the tree. -/
theorem a_preview_tells_what_the_patch_does (t : FileTree) (ht : t.Closed) (w : Workspace)
    (d : Definition) :
    (∀ failure, d.preview t w = .error failure ↔ d.patch t w = .error failure) ∧
    (∀ file, d.preview t w = .ok (.alreadyApplied file) ↔
      ∃ tree, d.patch t w = .ok (.alreadyApplied file, tree)) ∧
    (∀ file, d.preview t w = .ok (.wouldApply file) ↔
      ∃ bytes tree, d.patch t w = .ok (.applied file bytes, tree)) ∧
    ((∀ file bytes tree, d.patch t w ≠ .ok (.applied file bytes, tree)) →
      treeAfter t (d.patch t w) = t) ∧
    (∀ file bytes tree, d.patch t w = .ok (.applied file bytes, tree) →
      ∃ p, d.plan t w = .ok p ∧ p.file = file ∧ d.freshBlock t = .ok p.fresh ∧
        bytes = p.fresh.length ∧ t.read file = .ok p.content ∧ tree.read file = .ok p.patched ∧
        p.patched ≠ p.content) ∧
    (∀ p, d.plan t w = .ok p →
      p.patched = p.content.take p.span.start ++ p.fresh ++ p.content.drop p.span.stop ∧
      p.patched = splice p.content p.edit.start p.edit.stop p.edit.fresh ∧
      (p.isDone = true ↔ p.patched = p.content)) := by
  cases hplan : d.plan t w with
  | error failure =>
    rw [preview_of_plan_error hplan, patch_of_plan_error hplan]
    simp [treeAfter]
  | ok p =>
    have hle := (plan_facts hplan).2.2.1.1
    have hread := (plan_facts hplan).1
    have hfresh := (plan_eq_ok_iff.mp hplan).1
    obtain ⟨told, done, htold, hdone, hforetold⟩ := exists_foretold ht hplan
    rw [htold, hdone]
    have hsplices : ∀ p', Except.ok p = (.ok p' : Except PatchFailure Plan) →
        p'.patched = p'.content.take p'.span.start ++ p'.fresh ++ p'.content.drop p'.span.stop ∧
        p'.patched = splice p'.content p'.edit.start p'.edit.stop p'.edit.fresh ∧
        (p'.isDone = true ↔ p'.patched = p'.content) := by
      rintro _ ⟨⟩
      exact ⟨Plan.patched_eq_splice hle, Plan.patched_eq_splice hle, Plan.isDone_iff hle⟩
    cases hforetold with
    | nothing hsame =>
      refine ⟨by simp, by simp, by simp, fun _ => rfl, by simp, hsplices⟩
    | @splice tree hdiffers hreads =>
      refine ⟨by simp, by simp, by simp, fun hno => absurd rfl (hno _ _ _), ?_, hsplices⟩
      rintro _ _ _ ⟨⟩
      refine ⟨p, rfl, rfl, hfresh, rfl, hread, hreads, fun hsame => ?_⟩
      rw [(Plan.isDone_iff hle).mpr hsame] at hdiffers
      cases hdiffers

theorem a_preview_tells_of_the_small_patch :
    smallTree.Closed ∧ smallPatch.preview smallTree smallWorkspace =
      .ok (.wouldApply ⟨"/ws/notes"⟩) ∧
    ∃ bytes tree, smallPatch.patch smallTree smallWorkspace =
      .ok (.applied ⟨"/ws/notes"⟩ bytes, tree) := by
  have hpreview : smallPatch.preview smallTree smallWorkspace =
      .ok (.wouldApply ⟨"/ws/notes"⟩) := by
    rw [preview_of_plan plan_smallPatch, isDone_smallPlan]
    rfl
  obtain ⟨_, _, hsplice, _⟩ := a_preview_tells_what_the_patch_does smallTree closed_smallTree
    smallWorkspace smallPatch
  exact ⟨closed_smallTree, hpreview, (hsplice _).mp hpreview⟩

end Definition

end AnchoredBlocks
