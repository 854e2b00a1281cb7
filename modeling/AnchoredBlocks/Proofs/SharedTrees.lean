-- Plans that wait while others write. Any number of patches are planned and
-- carried out in any order, and between two of these steps the tree may become
-- any other tree. A plan that comes late still only changes its own span.
import AnchoredBlocks.Proofs.PlannedEdits

namespace AnchoredBlocks

/-! ## A late plan -/

theorem Expectation.holds_of_iff {seen found : Bytes} : (Expectation.of seen).Holds found ↔
    if textLimit < seen.length then blockHash found = blockHash seen else found = seen := by
  unfold Expectation.of
  by_cases h : textLimit < seen.length
  · simp only [gt_iff_lt, h, if_true]
    rfl
  · simp only [gt_iff_lt, h, if_false]
    rfl

/-- The content is text, and where the plan goes it holds the block that was found. A long
block is only known by its hash. -/
structure Plan.Expects (p : Plan) (content : Bytes) : Prop where
  valid : Utf8.Valid content
  fits : p.span.Fits content
  stop_le : p.span.stop ≤ content.length
  block : p.span.block content = p.block ∨
    Expectation.textLimit < p.block.length ∧ blockHash (p.span.block content) = blockHash p.block

theorem Plan.expects_of_found {p : Plan} {content text : Bytes}
    (h : p.edit.found content = .ok text) (hne : text ≠ p.fresh) : p.Expects content := by
  obtain ⟨⟨hle, hlen⟩, ⟨cs, hcs⟩, hboundary, rfl, hholds⟩ := Edit.found_eq_ok_iff.mp h
  refine ⟨⟨cs, Utf8.encode_of_decode hcs⟩, ⟨hle, hboundary⟩, hlen, ?_⟩
  rcases hholds with hfresh | hholds
  · exact absurd hfresh hne
  · have hblock := Expectation.holds_of_iff.mp hholds
    by_cases hlong : Expectation.textLimit < p.block.length
    · rw [if_pos hlong] at hblock
      exact .inr ⟨hlong, hblock⟩
    · rw [if_neg hlong] at hblock
      exact .inl hblock

/-- A plan that is carried out turns what the file holds now into the splice of it. -/
theorem Plan.applied_to_what_is_there {p : Plan} {t t' : FileTree} {file : Path} {bytes : Nat}
    (h : p.carryOut t = .ok (.applied file bytes, t')) : file = p.file ∧ ∃ content,
      t.read p.file = .ok content ∧ p.Expects content ∧
      t'.read p.file =
        .ok (content.take p.span.start ++ p.fresh ++ content.drop p.span.stop) := by
  obtain ⟨_, hrun⟩ := carryOut_eq_applied_iff.mp h
  obtain ⟨hfile, _, content, text, hread, hfound, hne, hwrite⟩ := Edit.run_eq_written_iff.mp hrun
  exact ⟨hfile, content, hread, expects_of_found hfound hne,
    FileTree.read_replaceFile hread hwrite⟩

/-! ## The desk -/

/-- A tree, and the plans that were made for it so far. -/
structure Desk where
  tree : FileTree
  plans : List Plan

/-- One step at the desk. A plan is carried out by its number. Others may leave any tree
behind. -/
inductive Act where
  | plan (d : Definition) (w : Workspace)
  | carryOut (n : Nat)
  | others (tree : FileTree)

namespace Desk

def act (s : Desk) : Act → Desk
  | .plan d w =>
    match d.plan s.tree w with
    | .ok p => { s with plans := s.plans ++ [p] }
    | .error _ => s
  | .carryOut n =>
    match s.plans[n]? with
    | some p => { s with tree := treeAfter s.tree (p.carryOut s.tree) }
    | none => s
  | .others tree => { s with tree }

/-- The desk after some acts, with no plans at the start. -/
def after (t : FileTree) (acts : List Act) : Desk := acts.foldl act ⟨t, []⟩

theorem after_concat (t : FileTree) (acts : List Act) (a : Act) :
    after t (acts ++ [a]) = (after t acts).act a := by
  unfold after
  rw [List.foldl_append]
  rfl

/-- One act adds one plan at most, and that plan was made in the tree of the moment. -/
theorem mem_plans_act {s : Desk} {a : Act} {p : Plan} (h : p ∈ (s.act a).plans) :
    p ∈ s.plans ∨ ∃ d w, a = .plan d w ∧ d.plan s.tree w = .ok p := by
  cases a with
  | plan d w =>
    unfold act at h
    simp only at h
    split at h
    · rename_i p' hp'
      rcases List.mem_append.mp h with hold | hnew
      · exact .inl hold
      · have hp : p = p' := List.mem_singleton.mp hnew
        exact .inr ⟨d, w, rfl, hp ▸ hp'⟩
    · exact .inl h
  | carryOut n =>
    unfold act at h
    simp only at h
    split at h
    · exact .inl h
    · exact .inl h
  | others tree => exact .inl h

/-- Every plan at the desk was made by an earlier act. -/
theorem exists_plan_act {t : FileTree} {acts : List Act} {p : Plan}
    (h : p ∈ (after t acts).plans) : ∃ earlier d w later,
      acts = earlier ++ .plan d w :: later ∧ d.plan (after t earlier).tree w = .ok p := by
  induction acts using List.reverseRecOn with
  | nil => cases h
  | append_singleton acts a ih =>
    rw [after_concat] at h
    rcases mem_plans_act h with hold | ⟨d, w, rfl, hp⟩
    · obtain ⟨earlier, d, w, later, rfl, hp⟩ := ih hold
      exact ⟨earlier, d, w, later ++ [a], by simp, hp⟩
    · exact ⟨acts, d, w, [], rfl, hp⟩

theorem tree_act_carryOut {s : Desk} {n : Nat} {p : Plan} (h : s.plans[n]? = some p) :
    (s.act (.carryOut n)).tree = treeAfter s.tree (p.carryOut s.tree) := by
  unfold act
  simp only [h]

/-- Whatever was planned, carried out and written by others before: a plan was made from
what its file held at some earlier moment. If it is applied now, it takes the file as it is
now, finds its block there, and changes nothing but the span. If it is not applied, the tree
stays as it is. -/
theorem a_late_plan_changes_only_its_span (t : FileTree) (acts : List Act) (n : Nat) (p : Plan)
    (h : (after t acts).plans[n]? = some p) :
    (∃ earlier d w later, acts = earlier ++ .plan d w :: later ∧
      d.plan (after t earlier).tree w = .ok p ∧
      (after t earlier).tree.read p.file = .ok p.content) ∧
    (∀ file bytes tree, p.carryOut (after t acts).tree = .ok (.applied file bytes, tree) →
      (after t (acts ++ [.carryOut n])).tree = tree ∧ file = p.file ∧
      ∃ content, (after t acts).tree.read file = .ok content ∧
        Utf8.Valid content ∧ p.span.Fits content ∧ p.span.stop ≤ content.length ∧
        (slice content p.span.start p.span.stop = p.block ∨ 1024 < p.block.length ∧
          blockHash (slice content p.span.start p.span.stop) = blockHash p.block) ∧
        tree.read file =
          .ok (content.take p.span.start ++ p.fresh ++ content.drop p.span.stop)) ∧
    ((∀ file bytes tree, p.carryOut (after t acts).tree ≠ .ok (.applied file bytes, tree)) →
      (after t (acts ++ [.carryOut n])).tree = (after t acts).tree) := by
  have htree : (after t (acts ++ [.carryOut n])).tree =
      treeAfter (after t acts).tree (p.carryOut (after t acts).tree) := by
    rw [after_concat, tree_act_carryOut h]
  refine ⟨?_, fun file bytes tree hdone => ?_, fun hno => ?_⟩
  · obtain ⟨earlier, d, w, later, hacts, hplan⟩ := exists_plan_act (List.mem_of_getElem? h)
    exact ⟨earlier, d, w, later, hacts, hplan, (Definition.plan_facts hplan).1⟩
  · obtain ⟨rfl, content, hread, hexpects, hafter⟩ := Plan.applied_to_what_is_there hdone
    rw [htree, hdone]
    exact ⟨rfl, rfl, content, hread, hexpects.valid, hexpects.fits, hexpects.stop_le,
      hexpects.block, hafter⟩
  · rw [htree]
    exact Plan.treeAfter_carryOut hno

/-- Others add to the file of the small workspace. -/
def longerTree : FileTree :=
  smallTree.put ⟨["ws", "notes"]⟩ (.file (Utf8.bytes "<k> old </k> more") 0o644)

theorem a_late_plan_keeps_what_others_added :
    (after smallTree [.plan smallPatch smallWorkspace, .others longerTree]).plans[0]? =
      some smallPlan ∧
    (after smallTree [.plan smallPatch smallWorkspace, .others longerTree,
      .carryOut 0]).tree.read ⟨"/ws/notes"⟩ = .ok (Utf8.bytes "<k> new </k> more") := by
  have hdesk : after smallTree [.plan smallPatch smallWorkspace, .others longerTree] =
      ⟨longerTree, [smallPlan]⟩ := by
    simp only [after, List.foldl_cons, List.foldl_nil, act, plan_smallPatch, List.nil_append]
  have hheld : (after smallTree [.plan smallPatch smallWorkspace, .others longerTree]).plans[0]? =
      some smallPlan := by
    rw [hdesk]
    rfl
  have hread : longerTree.read ⟨"/ws/notes"⟩ = .ok (Utf8.bytes "<k> old </k> more") := by cbv
  have hdone : ∃ tree, smallPlan.carryOut longerTree = .ok (.applied ⟨"/ws/notes"⟩ 12, tree) := by
    refine ⟨longerTree.put ⟨["ws", "notes"]⟩ (.file (Utf8.bytes "<k> new </k> more") 0o644), ?_⟩
    cbv
  obtain ⟨tree, hdone⟩ := hdone
  obtain ⟨_, happlied, _⟩ := a_late_plan_changes_only_its_span smallTree
    [.plan smallPatch smallWorkspace, .others longerTree] 0 smallPlan hheld
  rw [hdesk] at happlied
  obtain ⟨htree, _, content, hcontent, _, _, _, _, hafter⟩ := happlied _ _ _ hdone
  rw [hread] at hcontent
  cases hcontent
  refine ⟨hheld, ?_⟩
  rw [← htree] at hafter
  exact hafter

end Desk

end AnchoredBlocks
