-- What an edit and a plan do, case by case. Each function is opened here once,
-- and the laws of patches only speak of the cases.
import Mathlib
import AnchoredBlocks.PatchPlan
import AnchoredBlocks.Proofs.BlockPlace
import AnchoredBlocks.Proofs.Characters
import AnchoredBlocks.Proofs.FreshFiles

namespace AnchoredBlocks

/-! ## Splices -/

/-- A splice changes nothing only if the fresh text already stands there. -/
theorem splice_eq_self_iff {text fresh : Bytes} {start stop : Nat} (h : start ≤ stop) :
    splice text start stop fresh = text ↔ slice text start stop = fresh := by
  constructor
  · intro hsplice
    have hsame : text.take start ++ fresh ++ text.drop stop =
        text.take start ++ slice text start stop ++ text.drop stop :=
      hsplice.trans (splice_slice h).symm
    exact (List.append_cancel_left (List.append_cancel_right hsame)).symm
  · rintro rfl
    exact splice_slice h

/-! ## Edits -/

namespace Edit

variable {e : Edit} {t t' : FileTree} {content text : Bytes}

theorem found_eq_ok_iff : e.found content = .ok text ↔
    (e.start ≤ e.stop ∧ e.stop ≤ content.length) ∧ (∃ cs, Utf8.decode content = .ok cs) ∧
      (Utf8.isBoundary content e.start = true ∧ Utf8.isBoundary content e.stop = true) ∧
      text = slice content e.start e.stop ∧ (text = e.fresh ∨ e.expected.Holds text) := by
  unfold found
  constructor
  · intro h
    simp only at h
    split at h
    · cases h
    · rename_i hrange
      split at h
      · cases h
      · rename_i cs hcs
        split at h
        · cases h
        · rename_i hboundary
          split at h
          · rename_i hholds
            cases h
            refine ⟨by omega, ⟨cs, hcs⟩, by simpa using hboundary, rfl, hholds⟩
          · cases h
  · rintro ⟨hrange, ⟨cs, hcs⟩, hboundary, rfl, hholds⟩
    have hin : ¬ (e.start > e.stop ∨ e.stop > content.length) := by omega
    simp only [hin, if_false, hcs, hboundary.1, hboundary.2, Bool.not_true, Bool.or_self,
      Bool.false_eq_true, hholds, if_true]

/-- An edit writes when the span holds what was expected and not yet the fresh text. -/
theorem run_eq_written_iff {file : Path} {bytes : Nat} :
    e.run t = .ok (.written file bytes, t') ↔ file = e.file ∧ bytes = e.fresh.length ∧
      ∃ content text, t.read e.file = .ok content ∧ e.found content = .ok text ∧
        text ≠ e.fresh ∧
        t.replaceFile e.file (splice content e.start e.stop e.fresh) = .ok t' := by
  unfold run
  constructor
  · intro h
    split at h
    · cases h
    · rename_i content hread
      split at h
      · cases h
      · rename_i text hfound
        split at h
        · cases h
        · rename_i hfresh
          split at h
          · cases h
          · rename_i tree hwrite
            cases h
            exact ⟨rfl, rfl, content, text, hread, hfound, hfresh, hwrite⟩
  · rintro ⟨rfl, rfl, content, text, hread, hfound, hfresh, hwrite⟩
    simp only [hread, hfound, hfresh, if_false, hwrite]

theorem run_eq_alreadyThere_iff {file : Path} :
    e.run t = .ok (.alreadyThere file, t') ↔ file = e.file ∧ t' = t ∧
      ∃ content, t.read e.file = .ok content ∧ e.found content = .ok e.fresh := by
  unfold run
  constructor
  · intro h
    split at h
    · cases h
    · rename_i content hread
      split at h
      · cases h
      · rename_i text hfound
        split at h
        · rename_i hfresh
          cases h
          exact ⟨rfl, rfl, content, hread, hfresh ▸ hfound⟩
        · split at h <;> cases h
  · rintro ⟨rfl, rfl, content, hread, hfound⟩
    simp only [hread, hfound, if_true]

end Edit

/-! ## Plans -/

/-- The tree after a call. A call that fails leaves it as it was. -/
def treeAfter {ε α : Type} (t : FileTree) : Except ε (α × FileTree) → FileTree
  | .ok (_, tree) => tree
  | .error _ => t

namespace Plan

variable {p : Plan} {t t' : FileTree}

theorem carryOut_eq_applied_iff {file : Path} {bytes : Nat} :
    p.carryOut t = .ok (.applied file bytes, t') ↔
      p.isDone = false ∧ p.edit.run t = .ok (.written file bytes, t') := by
  unfold carryOut
  cases p.isDone with
  | true => simp
  | false =>
    cases hrun : p.edit.run t with
    | error failure => simp
    | ok done =>
      obtain ⟨outcome, tree⟩ := done
      cases outcome <;> simp

theorem carryOut_eq_alreadyApplied_iff {file : Path} :
    p.carryOut t = .ok (.alreadyApplied file, t') ↔ file = p.file ∧ t' = t ∧
      (p.isDone = true ∨ p.edit.run t = .ok (.alreadyThere p.file, t)) := by
  unfold carryOut
  cases p.isDone with
  | true => simp [eq_comm]
  | false =>
    cases hrun : p.edit.run t with
    | error failure => simp
    | ok done =>
      obtain ⟨outcome, tree⟩ := done
      cases outcome with
      | written file' bytes => simp
      | alreadyThere file' =>
        obtain ⟨rfl, rfl, _⟩ := Edit.run_eq_alreadyThere_iff.mp hrun
        simp [eq_comm, edit, Edit.after]

theorem carryOut_ne_wouldApply {file : Path} : p.carryOut t ≠ .ok (.wouldApply file, t') := by
  unfold carryOut
  cases p.isDone with
  | true => simp
  | false =>
    cases hrun : p.edit.run t with
    | error failure => simp
    | ok done =>
      obtain ⟨outcome, tree⟩ := done
      cases outcome <;> simp

/-- Only a patch that is applied changes the tree. -/
theorem treeAfter_carryOut (h : ∀ file bytes tree, p.carryOut t ≠ .ok (.applied file bytes, tree)) :
    treeAfter t (p.carryOut t) = t := by
  cases hp : p.carryOut t with
  | error failure => rfl
  | ok done =>
    obtain ⟨outcome, tree⟩ := done
    cases outcome with
    | applied file bytes => exact absurd hp (h _ _ _)
    | alreadyApplied file => exact (carryOut_eq_alreadyApplied_iff.mp hp).2.1
    | wouldApply file => exact absurd hp carryOut_ne_wouldApply

end Plan

/-! ## From a definition to its plan -/

theorem FileTree.readText_eq_ok_iff {t : FileTree} {p : Path} {content : Bytes} :
    t.readText p = .ok content ↔
      t.read p = .ok content ∧ ∃ cs, Utf8.decode content = .ok cs := by
  unfold FileTree.readText
  constructor
  · intro h
    split at h
    · cases h
    · rename_i old hread
      split at h
      · rename_i cs hcs
        cases h
        exact ⟨hread, cs, hcs⟩
      · cases h
  · rintro ⟨hread, cs, hcs⟩
    simp only [hread, hcs]

namespace Definition

variable {d : Definition} {t : FileTree} {w : Workspace} {p : Plan}

theorem find_of_findBlock {text : Bytes} {span : Span} (h : d.findBlock text = .ok span) :
    d.markers.find text = .ok span := by
  unfold findBlock at h
  split at h
  · exact Markers.find_of_findOnly h
  · exact h

theorem findBlock_eq_find {text : Bytes}
    (h : d.onlyAnchor = true → occurrences (Utf8.bytes d.markers.anchor) text ≤ 1) :
    d.findBlock text = d.markers.find text := by
  unfold findBlock
  split
  · rename_i honly
    exact Markers.findOnly_eq_find (h honly)
  · rfl

/-- The fresh block only depends on the tree by the file that it is read from. -/
theorem freshBlock_congr {t' : FileTree} (h : ∀ name, d.replacement.source? = some (.file name) →
      t'.readText (d.replacementPath name) = t.readText (d.replacementPath name)) :
    d.freshBlock t' = d.freshBlock t := by
  unfold freshBlock
  split
  · rfl
  · split
    · rfl
    · rename_i name hsource
      rw [h name hsource]
    · rfl

/-- A fresh block is the text of the replacement, or it has been read from its file. -/
theorem freshBlock_eq_ok_iff {fresh : Bytes} : d.freshBlock t = .ok fresh ↔
    d.check = .ok () ∧ match d.replacement.source? with
      | some (.text text) => fresh = Utf8.bytes text
      | some (.file name) => t.readText (d.replacementPath name) = .ok fresh
      | none => fresh = [] := by
  unfold freshBlock
  cases d.check with
  | error faults => simp
  | ok =>
    rcases d.replacement.source? with _ | ⟨text | name⟩
    · simp [eq_comm]
    · simp [eq_comm]
    · simp only [true_and]
      cases t.readText (d.replacementPath name) <;> simp

/-- A text in the definition is the fresh block as it is, whatever it holds. -/
theorem freshBlock_of_text {text : String} (hsource : d.replacement = { text := some text })
    (htarget : d.checkTarget = .ok ()) : d.freshBlock t = .ok (Utf8.bytes text) := by
  have hcheck : d.check = d.checkTarget := by
    unfold check checkTarget issues
    rw [hsource]
    simp [Replacement.fault?]
  refine freshBlock_eq_ok_iff.mpr ⟨hcheck.trans htarget, ?_⟩
  simp [hsource, Replacement.source?]

theorem valid_of_freshBlock {fresh : Bytes} (h : d.freshBlock t = .ok fresh) :
    Utf8.Valid fresh := by
  obtain ⟨_, hfresh⟩ := freshBlock_eq_ok_iff.mp h
  split at hfresh
  · exact ⟨_, hfresh⟩
  · exact Utf8.valid_iff.mpr (FileTree.readText_eq_ok_iff.mp hfresh).2
  · exact ⟨[], hfresh⟩

/-- The file that a fresh block has been read from. -/
theorem readText_of_freshBlock {fresh : Bytes} {name : String} (h : d.freshBlock t = .ok fresh)
    (hsource : d.replacement.source? = some (.file name)) :
    t.readText (d.replacementPath name) = .ok fresh := by
  obtain ⟨_, hfresh⟩ := freshBlock_eq_ok_iff.mp h
  simpa only [hsource] using hfresh

theorem readBlock_eq_ok_iff {b : FoundBlock} : d.readBlock t w = .ok b ↔
    w.target t d = .ok b.file ∧ t.readText b.file = .ok b.content ∧
      d.findBlock b.content = .ok b.span := by
  unfold readBlock
  constructor
  · intro h
    split at h
    · cases h
    · rename_i file hfile
      split at h
      · cases h
      · rename_i content hcontent
        split at h
        · cases h
        · rename_i span hspan
          cases h
          exact ⟨hfile, hcontent, hspan⟩
  · rintro ⟨hfile, hcontent, hspan⟩
    simp only [hfile, hcontent, hspan]

theorem plan_eq_ok_iff : d.plan t w = .ok p ↔
    d.freshBlock t = .ok p.fresh ∧ d.readBlock t w = .ok p.found := by
  unfold plan
  cases d.freshBlock t with
  | error failure => simp
  | ok fresh =>
    cases d.readBlock t w with
    | error failure => simp [Except.map]
    | ok found =>
      obtain ⟨found', fresh'⟩ := p
      simp [Except.map, and_comm]

theorem plan_of_not_found {file : Path} {content fresh : Bytes} {failure : SearchFailure}
    (hfresh : d.freshBlock t = .ok fresh) (htarget : w.target t d = .ok file)
    (hread : t.readText file = .ok content) (hfind : d.findBlock content = .error failure) :
    d.plan t w = .error (.noBlock file failure) := by
  unfold plan readBlock
  simp only [hfresh, htarget, hread, hfind]
  rfl

/-- The file of a plan has been read, it is valid, and the block lies in it. -/
theorem plan_facts (h : d.plan t w = .ok p) : t.read p.file = .ok p.content ∧
    (∃ cs, Utf8.decode p.content = .ok cs) ∧ p.span.Fits p.content ∧
    p.span.stop ≤ p.content.length := by
  obtain ⟨_, hblock⟩ := plan_eq_ok_iff.mp h
  obtain ⟨_, hread, hspan⟩ := readBlock_eq_ok_iff.mp hblock
  obtain ⟨hread, cs, hcs⟩ := FileTree.readText_eq_ok_iff.mp hread
  have hfind := find_of_findBlock hspan
  exact ⟨hread, ⟨cs, hcs⟩, Markers.find_fits ⟨cs, Utf8.encode_of_decode hcs⟩ hfind,
    (Markers.find_bounds hfind).2.2⟩

theorem preview_of_plan (h : d.plan t w = .ok p) : d.preview t w =
    .ok (if p.isDone then .alreadyApplied p.file else .wouldApply p.file) := by
  unfold preview
  rw [h]
  rfl

theorem patch_of_plan (h : d.plan t w = .ok p) : d.patch t w = p.carryOut t := by
  unfold patch
  rw [h]

theorem preview_of_plan_error {failure : PatchFailure} (h : d.plan t w = .error failure) :
    d.preview t w = .error failure := by
  unfold preview
  rw [h]
  rfl

theorem patch_of_plan_error {failure : PatchFailure} (h : d.plan t w = .error failure) :
    d.patch t w = .error failure := by
  unfold patch
  rw [h]

end Definition

namespace Plan

variable {d : Definition} {t : FileTree} {w : Workspace} {p : Plan}

/-- The patched content is the splice, also where nothing is to be done. -/
theorem patched_eq_splice (h : p.span.start ≤ p.span.stop) :
    p.patched = splice p.content p.span.start p.span.stop p.fresh := by
  unfold patched
  split
  · rename_i hdone
    exact ((splice_eq_self_iff h).mpr (of_decide_eq_true hdone)).symm
  · rfl

/-- Nothing is to be done exactly if the patch would change nothing. -/
theorem isDone_iff (h : p.span.start ≤ p.span.stop) :
    p.isDone = true ↔ p.patched = p.content := by
  rw [patched_eq_splice h, splice_eq_self_iff h]
  exact decide_eq_true_iff

/-- The edit of a fresh plan finds the block that the plan found. -/
theorem edit_found (h : d.plan t w = .ok p) : p.edit.found p.content = .ok p.block := by
  obtain ⟨_, hcs, ⟨hle, hstart, hstop⟩, hlen⟩ := Definition.plan_facts h
  refine Edit.found_eq_ok_iff.mpr ⟨⟨hle, hlen⟩, hcs, ⟨hstart, hstop⟩, rfl, .inr ?_⟩
  simp only [edit, Edit.after, Expectation.of]
  split <;> rfl

end Plan

namespace Definition

/-- A patch leaves the tree alone, or it replaces the file of its plan. -/
theorem treeAfter_patch (d : Definition) (t : FileTree) (w : Workspace) :
    treeAfter t (d.patch t w) = t ∨ ∃ p content, d.plan t w = .ok p ∧
      t.read p.file = .ok content ∧
      t.replaceFile p.file (splice content p.span.start p.span.stop p.fresh) =
        .ok (treeAfter t (d.patch t w)) := by
  cases hplan : d.plan t w with
  | error failure =>
    rw [patch_of_plan_error hplan]
    exact .inl rfl
  | ok p =>
    rw [patch_of_plan hplan]
    by_cases happlied : ∃ file bytes tree, p.carryOut t = .ok (.applied file bytes, tree)
    · obtain ⟨file, bytes, tree, happlied⟩ := happlied
      obtain ⟨_, hrun⟩ := Plan.carryOut_eq_applied_iff.mp happlied
      obtain ⟨_, _, content, _, hread, _, _, hwrite⟩ := Edit.run_eq_written_iff.mp hrun
      rw [happlied]
      exact .inr ⟨p, content, rfl, hread, hwrite⟩
    · left
      exact Plan.treeAfter_carryOut fun file bytes tree h => happlied ⟨file, bytes, tree, h⟩

end Definition

/-! ## A small workspace -/

/-- A workspace with a version store, a file, and a link to the file. -/
def smallTree : FileTree where
  entries := [(⟨["ws"]⟩, .plainDirectory), (⟨["ws", ".git"]⟩, .plainDirectory),
    (⟨["ws", "notes"]⟩, .file (Utf8.bytes "<k> old </k>") 0o644),
    (⟨["ws", "link"]⟩, .link ⟨"notes"⟩)]
  current := ⟨["ws"]⟩

def smallWorkspace : Workspace := ⟨⟨"/ws"⟩, some ⟨⟨["ws"]⟩, some ⟨["ws", ".git"]⟩⟩⟩

/-- Names the file by its link. -/
def smallPatch : Definition :=
  .inline "link" ⟨"k", "<", "</k>"⟩ { text := some "<k> new </k>" }

def smallPlan : Plan :=
  ⟨⟨⟨"/ws/notes"⟩, Utf8.bytes "<k> old </k>", ⟨0, 12, 1⟩⟩, Utf8.bytes "<k> new </k>"⟩

theorem closed_smallTree : smallTree.Closed := by
  intro x hx
  simp only [smallTree, List.mem_cons, List.not_mem_nil, or_false] at hx
  rcases hx with rfl | rfl | rfl | rfl
  all_goals exact ⟨_, rfl⟩

theorem fenced_smallTree : Workspace.fenced smallTree ⟨"/ws"⟩ = .ok smallWorkspace := by cbv

theorem plan_smallPatch : smallPatch.plan smallTree smallWorkspace = .ok smallPlan := by
  have hfresh : smallPatch.freshBlock smallTree = .ok (Utf8.bytes "<k> new </k>") :=
    Definition.freshBlock_of_text rfl (by cbv)
  have hblock : smallPatch.readBlock smallTree smallWorkspace =
      .ok ⟨⟨"/ws/notes"⟩, Utf8.bytes "<k> old </k>", ⟨0, 12, 1⟩⟩ := by cbv
  exact Definition.plan_eq_ok_iff.mpr ⟨hfresh, hblock⟩

theorem isDone_smallPlan : smallPlan.isDone = false := by decide

end AnchoredBlocks
