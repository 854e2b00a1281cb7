-- What comes after a patch that was applied. The same definition means the same
-- file again, also where the file took the place of a link. If the fresh block
-- is found in it, all later calls have nothing to do. If its anchor is gone, all
-- later calls say so. Neither changes the tree.
import AnchoredBlocks.Proofs.FencedRuns
import AnchoredBlocks.Proofs.Previews
import AnchoredBlocks.Proofs.SharedTrees
import AnchoredBlocks.Proofs.Surroundings

namespace AnchoredBlocks

open FileTree

variable {d : Definition} {t tree : FileTree} {w : Workspace} {p q : Plan} {s : Desk}
  {answers : List (Except PatchFailure PatchOutcome)}

/-! ## Calls for one definition -/

/-- Any run of calls for one definition from a tree: the desk that it leaves behind, and what
the calls have answered. A plan is carried out at any time after it was made, any number of
times. -/
inductive Calls (d : Definition) (w : Workspace) (t : FileTree) :
    Desk → List (Except PatchFailure PatchOutcome) → Prop
  | start : Calls d w t ⟨t, []⟩ []
  | preview {s : Desk} {answers : List (Except PatchFailure PatchOutcome)} :
      Calls d w t s answers → Calls d w t s (answers ++ [d.preview s.tree w])
  | plan {s : Desk} {answers : List (Except PatchFailure PatchOutcome)} {p : Plan} :
      Calls d w t s answers → d.plan s.tree w = .ok p →
      Calls d w t { s with plans := s.plans ++ [p] } answers
  | noPlan {s : Desk} {answers : List (Except PatchFailure PatchOutcome)} {e : PatchFailure} :
      Calls d w t s answers → d.plan s.tree w = .error e → Calls d w t s (answers ++ [.error e])
  | carryOut {s : Desk} {answers : List (Except PatchFailure PatchOutcome)} {p : Plan} :
      Calls d w t s answers → p ∈ s.plans →
      Calls d w t { s with tree := treeAfter s.tree (p.carryOut s.tree) }
        (answers ++ [(p.carryOut s.tree).map Prod.fst])
  | patch {s : Desk} {answers : List (Except PatchFailure PatchOutcome)} :
      Calls d w t s answers →
      Calls d w t { s with tree := treeAfter s.tree (d.patch s.tree w) }
        (answers ++ [(d.patch s.tree w).map Prod.fst])

theorem forall_mem_concat {α : Type} {xs : List α} {x y : α} (h : ∀ z ∈ xs, z = y) (hx : x = y) :
    ∀ z ∈ xs ++ [x], z = y := by
  intro z hz
  rcases List.mem_append.mp hz with hz | hz
  · exact h z hz
  · rw [List.mem_singleton.mp hz, hx]

namespace Calls

/-- Where a plan finds nothing to do, no call ever does anything. -/
theorem of_isDone (h : Calls d w t s answers) (hplan : d.plan t w = .ok q)
    (hdone : q.isDone = true) : s.tree = t ∧ (∀ p ∈ s.plans, p = q) ∧
      ∀ answer ∈ answers, answer = .ok (.alreadyApplied q.file) := by
  have hcarry := Plan.carryOut_of_isDone (t := t) hdone
  induction h with
  | start => exact ⟨rfl, by simp, by simp⟩
  | preview _ ih =>
    obtain ⟨htree, hplans, hanswers⟩ := ih
    refine ⟨htree, hplans, forall_mem_concat hanswers ?_⟩
    rw [htree, Definition.preview_of_plan hplan, if_pos hdone]
  | plan _ hp ih =>
    obtain ⟨htree, hplans, hanswers⟩ := ih
    rw [htree, hplan] at hp
    exact ⟨htree, forall_mem_concat hplans (Except.ok.inj hp).symm, hanswers⟩
  | noPlan _ he ih =>
    rw [ih.1, hplan] at he
    cases he
  | carryOut _ hp ih =>
    obtain ⟨htree, hplans, hanswers⟩ := ih
    obtain rfl := hplans _ hp
    simp only [htree, hcarry]
    exact ⟨rfl, hplans, forall_mem_concat hanswers rfl⟩
  | patch _ ih =>
    obtain ⟨htree, hplans, hanswers⟩ := ih
    simp only [htree, Definition.patch_of_plan hplan, hcarry]
    exact ⟨rfl, hplans, forall_mem_concat hanswers rfl⟩

/-- Where no plan can be made, every call fails in the same way. -/
theorem of_no_plan (h : Calls d w t s answers) {e : PatchFailure} (hplan : d.plan t w = .error e) :
    s.tree = t ∧ s.plans = [] ∧ ∀ answer ∈ answers, answer = .error e := by
  induction h with
  | start => exact ⟨rfl, rfl, by simp⟩
  | preview _ ih =>
    obtain ⟨htree, hplans, hanswers⟩ := ih
    refine ⟨htree, hplans, forall_mem_concat hanswers ?_⟩
    rw [htree, Definition.preview_of_plan_error hplan]
  | plan _ hp ih =>
    rw [ih.1, hplan] at hp
    cases hp
  | noPlan _ he ih =>
    obtain ⟨htree, hplans, hanswers⟩ := ih
    rw [htree, hplan] at he
    cases he
    exact ⟨htree, hplans, forall_mem_concat hanswers rfl⟩
  | carryOut _ hp ih =>
    rw [ih.2.1] at hp
    cases hp
  | patch _ ih =>
    obtain ⟨htree, hplans, hanswers⟩ := ih
    simp only [htree, Definition.patch_of_plan_error hplan]
    exact ⟨rfl, hplans, forall_mem_concat hanswers rfl⟩

end Calls

/-! ## The tree after a patch -/

namespace Definition

/-- A patch that was applied has replaced the file of its plan. -/
theorem exists_plan_of_applied {file : Path} {bytes : Nat}
    (h : d.patch t w = .ok (.applied file bytes, tree)) :
    ∃ p, d.plan t w = .ok p ∧ p.file = file ∧ t.replaceFile p.file p.patched = .ok tree := by
  cases hplan : d.plan t w with
  | error failure =>
    rw [patch_of_plan_error hplan] at h
    cases h
  | ok p =>
    rw [patch_of_plan hplan] at h
    obtain ⟨_, hrun⟩ := Plan.carryOut_eq_applied_iff.mp h
    obtain ⟨hfile, _, content, _, hread, _, _, hwrite⟩ := Edit.run_eq_written_iff.mp hrun
    obtain ⟨hread', _, hfits, _⟩ := plan_facts hplan
    have hcontent : content = p.content := Except.ok.inj (hread.symm.trans hread')
    refine ⟨p, rfl, hfile.symm, ?_⟩
    rw [Plan.patched_eq_splice hfits.1, ← hcontent]
    exact hwrite

/-- The patched file is text again. -/
theorem readText_of_replaceFile (hplan : d.plan t w = .ok p)
    (hwrite : t.replaceFile p.file p.patched = .ok tree) :
    tree.readText p.file = .ok p.patched := by
  obtain ⟨hread, hcs, ⟨hle, hstart, hstop⟩, _⟩ := plan_facts hplan
  have hfresh := valid_of_freshBlock (plan_eq_ok_iff.mp hplan).1
  refine readText_eq_ok_iff.mpr ⟨read_replaceFile hread hwrite, Utf8.valid_iff.mp ?_⟩
  rw [Plan.patched_eq_splice hle]
  exact (Utf8.valid_iff.mpr hcs).splice hstart hstop hfresh

/-- A fresh file takes no directory away, so the current one is still there, or still gone. -/
theorem currentPath?_of_replaceFile {content : Bytes} {file : Path}
    (hwrite : t.replaceFile file content = .ok tree) : tree.currentPath? = t.currentPath? := by
  obtain ⟨name, _, hname, rfl⟩ := replaceFile_eq_ok_iff.mp hwrite
  have hroot : name.names ≠ [] := by
    intro hroot
    have hsame : name = .root := congrArg Location.mk hroot
    rw [hsame] at hname
    exact hname (directoryAt_root t)
  by_cases hd : t.DirectoryAt t.current
  · rw [currentPath?_of_directoryAt hd]
    exact currentPath?_of_directoryAt (hd.put hname _)
  · rw [currentPath?_eq_none_iff.mpr hd, currentPath?_eq_none_iff]
    rintro ⟨mode, hentry⟩
    by_cases hcurrent : t.current = name
    · rw [← hcurrent] at hroot
      simp only [← hcurrent] at hentry
      have hfile := (entry?_put_self _ hroot).symm.trans hentry
      cases hfile
    · exact hd ⟨mode, (entry?_put_of_ne _ hcurrent).symm.trans hentry⟩

/-- The definition means the same file again. Without a fence the path stays as it is
written. Behind a fence it still leads to the location that was written. -/
theorem target_of_replaceFile (hplan : d.plan t w = .ok p)
    (hwrite : t.replaceFile p.file p.patched = .ok tree) : w.target tree d = .ok p.file := by
  obtain ⟨htarget, hread, _⟩ := readBlock_eq_ok_iff.mp (plan_eq_ok_iff.mp hplan).2
  have hcurrent := currentPath?_of_replaceFile hwrite
  have hlookup : w.lookupPath tree d = w.lookupPath t d := by
    unfold Workspace.lookupPath
    rw [hcurrent]
  have hadrift : w.isAdrift tree d = w.isAdrift t d := by
    unfold Workspace.isAdrift
    rw [hcurrent]
  cases hw : w.fence with
  | none =>
    unfold Workspace.target at htarget ⊢
    simp only [hw, hlookup, hadrift] at htarget ⊢
    exact htarget
  | some f =>
    obtain ⟨hthere, l, hlocate, hfile⟩ := (Workspace.target_eq_ok_iff hw).mp htarget
    obtain ⟨hresolve, hadmits⟩ := Fence.locate_eq_ok_iff.mp hlocate
    have hground := grounded_of_resolve (Path.isAbsolute_join (Path.isAbsolute_path f.root) _)
      hresolve
    obtain ⟨hread, _⟩ := readText_eq_ok_iff.mp hread
    have hfile' : p.file = l.path := hfile
    rw [hfile] at hread
    rw [hfile'] at hwrite
    obtain ⟨⟨mode, hentry⟩, mode', rfl⟩ := hground.replaceFile_path hread hwrite
    have hshape : SameShape t (t.put l (.file p.patched mode')) := .put ⟨_, mode, hentry⟩ _ _
    apply (Workspace.target_eq_ok_iff hw).mpr
    refine ⟨hadrift.trans hthere, l, ?_, hfile'⟩
    rw [hlookup]
    exact Fence.locate_eq_ok_iff.mpr ⟨hshape.resolve_eq_ok hresolve, hadmits⟩

/-- A replacement that is not read from the patched file stays the same. -/
theorem freshBlock_of_replaceFile (hplan : d.plan t w = .ok p)
    (hwrite : t.replaceFile p.file p.patched = .ok tree)
    (hother : ∀ name, d.replacement.source? = some (.file name) →
      t.reach (d.replacementPath name) ≠ t.reach p.file) :
    d.freshBlock tree = d.freshBlock t := by
  apply freshBlock_congr
  intro name hsource
  have hfresh := readText_of_freshBlock (plan_eq_ok_iff.mp hplan).1 hsource
  obtain ⟨hread, hcs⟩ := readText_eq_ok_iff.mp hfresh
  rw [hfresh]
  exact readText_eq_ok_iff.mpr ⟨read_replaceFile_of_ne (plan_facts hplan).1 hwrite hread
    (hother name hsource), hcs⟩

/-- With the same fresh block, the next plan is made from the patched file. -/
theorem plan_of_replaceFile (hplan : d.plan t w = .ok p)
    (hwrite : t.replaceFile p.file p.patched = .ok tree)
    (hsame : d.freshBlock tree = d.freshBlock t) {span : Span}
    (hfind : d.findBlock p.patched = .ok span) :
    d.plan tree w = .ok ⟨⟨p.file, p.patched, span⟩, p.fresh⟩ := by
  have htarget := target_of_replaceFile hplan hwrite
  have hread := readText_of_replaceFile hplan hwrite
  exact plan_eq_ok_iff.mpr ⟨hsame.trans (plan_eq_ok_iff.mp hplan).1,
    readBlock_eq_ok_iff.mpr ⟨htarget, hread, hfind⟩⟩

theorem plan_of_replaceFile_error (hplan : d.plan t w = .ok p)
    (hwrite : t.replaceFile p.file p.patched = .ok tree)
    (hsame : d.freshBlock tree = d.freshBlock t) {failure : SearchFailure}
    (hfind : d.findBlock p.patched = .error failure) :
    d.plan tree w = .error (.noBlock p.file failure) :=
  plan_of_not_found (hsame.trans (plan_eq_ok_iff.mp hplan).1)
    (target_of_replaceFile hplan hwrite) (readText_of_replaceFile hplan hwrite) hfind

/-! ## The block in the patched file -/

/-- The patched file is what stood before the block, the fresh block, and what stood after
the old one. -/
theorem exists_frame_of_plan (hplan : d.plan t w = .ok p) : ∃ front back,
    p.patched = front ++ p.fresh ++ back ∧ front.length = p.span.start := by
  obtain ⟨_, _, ⟨hle, _⟩, hlen⟩ := plan_facts hplan
  exact ⟨_, _, Plan.patched_eq_splice hle, List.length_take_of_le (hle.trans hlen)⟩

/-- A fresh block without an earlier anchor is what the next plan finds. -/
theorem exists_done_plan (hplan : d.plan t w = .ok p)
    (hwrite : t.replaceFile p.file p.patched = .ok tree)
    (hsame : d.freshBlock tree = d.freshBlock t) {a : Nat}
    (hfresh : d.markers.find p.fresh = .ok ⟨0, p.fresh.length, a⟩)
    (hfirst : d.markers.NoAnchorBefore p.patched p.span.start)
    (honly : d.onlyAnchor = true → ∃! i, OccursAt (Utf8.bytes d.markers.anchor) p.patched i) :
    ∃ q, d.plan tree w = .ok q ∧ q.file = p.file ∧ q.isDone = true := by
  obtain ⟨front, back, hpatched, hfront⟩ := exists_frame_of_plan hplan
  have hfind : d.markers.find p.patched = .ok ⟨front.length, front.length + p.fresh.length,
      front.length + a⟩ := by
    rw [← hfront, hpatched] at hfirst
    rw [hpatched]
    exact Markers.find_between hfresh hfirst
  have hone : d.onlyAnchor = true → occurrences (Utf8.bytes d.markers.anchor) p.patched ≤ 1 :=
    fun h => (occurrences_eq_one_iff.mpr (honly h)).le
  have hnext := plan_of_replaceFile hplan hwrite hsame ((findBlock_eq_find hone).trans hfind)
  refine ⟨_, hnext, rfl, ?_⟩
  apply decide_eq_true
  show slice p.patched front.length (front.length + p.fresh.length) = p.fresh
  rw [hpatched, slice_between]

/-- Without any anchor the next plan fails. -/
theorem plan_of_no_anchor (hplan : d.plan t w = .ok p)
    (hwrite : t.replaceFile p.file p.patched = .ok tree)
    (hsame : d.freshBlock tree = d.freshBlock t)
    (hgone : ∀ i, ¬ OccursAt (Utf8.bytes d.markers.anchor) p.patched i) :
    d.plan tree w = .error (.noBlock p.file (.noAnchor d.markers.anchor)) := by
  obtain ⟨_, _, hspan⟩ := readBlock_eq_ok_iff.mp (plan_eq_ok_iff.mp hplan).2
  have hfilled := (Markers.find_eq_ok_iff.mp (find_of_findBlock hspan)).1
  have hfind : d.markers.find p.patched = .error (.noAnchor d.markers.anchor) :=
    Markers.find_of_rule (.noAnchor hfilled (Set.eq_empty_iff_forall_notMem.mpr hgone))
  have hnone : d.onlyAnchor = true → occurrences (Utf8.bytes d.markers.anchor) p.patched ≤ 1 :=
    fun _ => (occurrences_eq_zero_iff.mpr hgone).le.trans (Nat.zero_le 1)
  exact plan_of_replaceFile_error hplan hwrite hsame ((findBlock_eq_find hnone).trans hfind)

/-! ## The law -/

/-- After a patch that was applied, as long as the fresh block stays the same: it does unless
it is read from the patched file. If the fresh block is a block by itself, no anchor comes up
before it, and it holds the only anchor where only one is allowed, then no later call finds
anything to do. If the anchor is gone, every later call fails for that, although the fresh
block stands in the file. In both cases the tree stays as it is, whatever calls are made and
however many. -/
theorem a_patched_file_is_settled {file : Path} {bytes : Nat}
    (h : d.patch t w = .ok (.applied file bytes, tree)) :
    ∃ p, d.plan t w = .ok p ∧ p.file = file ∧ tree.read file = .ok p.patched ∧
      ((∀ name, d.replacement.source? = some (.file name) →
        t.reach (d.replacementPath name) ≠ t.reach file) → d.freshBlock tree = d.freshBlock t) ∧
      (d.freshBlock tree = d.freshBlock t →
        (∃ a, d.markers.find p.fresh = .ok ⟨0, p.fresh.length, a⟩) →
        (∀ i, OccursAt (Utf8.bytes d.markers.anchor) p.patched i → p.span.start ≤ i) →
        (d.onlyAnchor = true → ∃! i, OccursAt (Utf8.bytes d.markers.anchor) p.patched i) →
        (∃ q, d.plan tree w = .ok q ∧ q.isDone = true) ∧
        ∀ s answers, Calls d w tree s answers → s.tree = tree ∧
          (∀ q ∈ s.plans, q.isDone = true) ∧
          ∀ answer ∈ answers, answer = .ok (.alreadyApplied file)) ∧
      (d.freshBlock tree = d.freshBlock t →
        (∀ i, ¬ OccursAt (Utf8.bytes d.markers.anchor) p.patched i) →
        OccursAt p.fresh p.patched p.span.start ∧
        ∀ s answers, Calls d w tree s answers → s.tree = tree ∧ s.plans = [] ∧
          ∀ answer ∈ answers, answer = .error (.noBlock file (.noAnchor d.markers.anchor))) := by
  obtain ⟨p, hplan, rfl, hwrite⟩ := exists_plan_of_applied h
  have hread := (readText_eq_ok_iff.mp (readText_of_replaceFile hplan hwrite)).1
  refine ⟨p, hplan, rfl, hread, freshBlock_of_replaceFile hplan hwrite, ?_, ?_⟩
  · rintro hsame ⟨a, hfresh⟩ hfirst honly
    obtain ⟨q, hq, hfile, hdone⟩ := exists_done_plan hplan hwrite hsame hfresh hfirst honly
    refine ⟨⟨q, hq, hdone⟩, ?_⟩
    intro s answers hcalls
    obtain ⟨htree, hplans, hanswers⟩ := hcalls.of_isDone hq hdone
    refine ⟨htree, ?_, ?_⟩
    · intro r hr
      rw [hplans r hr, hdone]
    · intro answer hanswer
      rw [hanswers answer hanswer, hfile]
  · intro hsame hgone
    obtain ⟨front, back, hpatched, hfront⟩ := exists_frame_of_plan hplan
    refine ⟨?_, ?_⟩
    · rw [← hfront, hpatched]
      exact (occursAt_between front back (i := 0) (Nat.zero_add _).le).mpr
        ⟨Nat.zero_le _, List.prefix_rfl⟩
    · intro s answers hcalls
      exact hcalls.of_no_plan (plan_of_no_anchor hplan hwrite hsame hgone)

/-- Names the file of the small workspace by its link, and asks for one anchor only. -/
def linkPatch (fresh : String) : Definition :=
  { Definition.inline "link" ⟨"k> ", "<", "</k>"⟩ { text := some fresh } with onlyAnchor := true }

/-- The plan of the link patch where nothing is fenced. -/
def linkPlan (fresh : String) : Plan :=
  ⟨⟨⟨"link"⟩, Utf8.bytes "<k> old </k>", ⟨0, 12, 1⟩⟩, Utf8.bytes fresh⟩

theorem plan_linkPatch (fresh : String) :
    (linkPatch fresh).plan smallTree (.free ⟨"/ws"⟩) = .ok (linkPlan fresh) := by
  have hfresh : (linkPatch fresh).freshBlock smallTree = .ok (Utf8.bytes fresh) :=
    freshBlock_of_text rfl (by cbv)
  have hblock : (linkPatch fresh).readBlock smallTree (.free ⟨"/ws"⟩) =
      .ok ⟨⟨"link"⟩, Utf8.bytes "<k> old </k>", ⟨0, 12, 1⟩⟩ := by cbv
  exact plan_eq_ok_iff.mpr ⟨hfresh, hblock⟩

/-- The file takes the place of the link. With an anchor in the fresh block it is patched once,
and without one no call finds the block again. -/
theorem a_patched_link_is_settled :
    (∃ tree, (linkPatch "<k> new </k>").patch smallTree (.free ⟨"/ws"⟩) =
        .ok (.applied ⟨"link"⟩ 12, tree) ∧
      ∀ s answers, Calls (linkPatch "<k> new </k>") (.free ⟨"/ws"⟩) tree s answers →
        s.tree = tree ∧ ∀ answer ∈ answers, answer = .ok (.alreadyApplied ⟨"link"⟩)) ∧
    ∃ tree, (linkPatch "<k>new</k>").patch smallTree (.free ⟨"/ws"⟩) =
        .ok (.applied ⟨"link"⟩ 10, tree) ∧
      ∀ s answers, Calls (linkPatch "<k>new</k>") (.free ⟨"/ws"⟩) tree s answers →
        s.tree = tree ∧ ∀ answer ∈ answers,
          answer = .error (.noBlock ⟨"link"⟩ (.noAnchor "k> ")) := by
  have hinline {fresh name : String} :
      (linkPatch fresh).replacement.source? ≠ some (.file name) := nofun
  refine ⟨?_, ?_⟩
  · obtain ⟨tree, hdone, _⟩ := Plan.exists_applied closed_smallTree
      (plan_linkPatch "<k> new </k>") (by decide)
    have hpatch := (patch_of_plan (plan_linkPatch "<k> new </k>")).trans hdone
    refine ⟨tree, hpatch, ?_⟩
    obtain ⟨p, hp, _, _, hsame, hstays, _⟩ := a_patched_file_is_settled hpatch
    obtain rfl : p = linkPlan "<k> new </k>" :=
      Except.ok.inj (hp.symm.trans (plan_linkPatch "<k> new </k>"))
    have hblock : (linkPatch "<k> new </k>").markers.find (linkPlan "<k> new </k>").fresh =
        .ok ⟨0, (linkPlan "<k> new </k>").fresh.length, 1⟩ := by decide
    have hone : ∃! i, OccursAt (Utf8.bytes "k> ") (linkPlan "<k> new </k>").patched i :=
      occurrences_eq_one_iff.mp (by decide)
    obtain ⟨_, hcalls⟩ := hstays (hsame fun _ h => absurd h hinline) ⟨1, hblock⟩
      (fun i _ => Nat.zero_le i) (fun _ => hone)
    intro s answers hs
    obtain ⟨htree, _, hanswers⟩ := hcalls s answers hs
    exact ⟨htree, hanswers⟩
  · obtain ⟨tree, hdone, _⟩ := Plan.exists_applied closed_smallTree
      (plan_linkPatch "<k>new</k>") (by decide)
    have hpatch := (patch_of_plan (plan_linkPatch "<k>new</k>")).trans hdone
    refine ⟨tree, hpatch, ?_⟩
    obtain ⟨p, hp, _, _, hsame, _, hfails⟩ := a_patched_file_is_settled hpatch
    obtain rfl : p = linkPlan "<k>new</k>" :=
      Except.ok.inj (hp.symm.trans (plan_linkPatch "<k>new</k>"))
    have hgone : ∀ i, ¬ OccursAt (Utf8.bytes "k> ") (linkPlan "<k>new</k>").patched i :=
      occurrences_eq_zero_iff.mp (by decide)
    obtain ⟨_, hcalls⟩ := hfails (hsame fun _ h => absurd h hinline) hgone
    intro s answers hs
    obtain ⟨htree, _, hanswers⟩ := hcalls s answers hs
    exact ⟨htree, hanswers⟩

end Definition

end AnchoredBlocks
