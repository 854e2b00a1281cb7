-- Edits that were prepared on one look at a file. Made from the last span to the
-- first, each finds its span as it was seen, and the content is as if all spans
-- had been replaced at once. Edits that keep all lengths may come in any order.
import AnchoredBlocks.Proofs.EditRulings

namespace AnchoredBlocks

variable {text fresh : Bytes} {start stop i j k : Nat}

/-! ## Splices side by side -/

theorem slice_append_drop (text : Bytes) (h : i ≤ k) :
    slice text i k ++ text.drop k = text.drop i := by
  rw [slice, List.drop_take]
  nth_rewrite 2 [← Nat.add_sub_cancel' h]
  exact List.drop_take_append_drop text i (k - i)

theorem slice_append_slice (text : Bytes) (hik : i ≤ k) (hkj : k ≤ j) :
    slice text i k ++ slice text k j = slice text i j := by
  have hcut := slice_append_drop (text.take j) hik
  rwa [slice, List.take_take, Nat.min_eq_left hkj] at hcut

theorem splice_between (front middle back fresh : Bytes) :
    splice (front ++ middle ++ back) front.length (front.length + middle.length) fresh =
      front ++ fresh ++ back := by
  rw [splice, ← List.length_append, List.drop_left, List.append_assoc front, List.take_left]

theorem exists_between (hle : start ≤ stop) (hlen : stop ≤ text.length) :
    ∃ front middle back, text = front ++ middle ++ back ∧ front.length = start ∧
      front.length + middle.length = stop := by
  refine ⟨text.take start, slice text start stop, text.drop stop, ?_, ?_, ?_⟩
  · exact (splice_slice hle).symm
  · exact List.length_take_of_le (hle.trans hlen)
  · rw [List.length_take_of_le (hle.trans hlen), length_slice hlen]
    omega

/-- Before a splice the text stays as it is. -/
theorem slice_splice_before (hle : j ≤ start) (hlen : start ≤ text.length) :
    slice (splice text start stop fresh) i j = slice text i j := by
  have hfront : j ≤ (text.take start).length := by rwa [List.length_take_of_le hlen]
  rw [slice, splice, List.append_assoc, List.take_append_of_le_length hfront, List.take_take,
    Nat.min_eq_left hle, slice]

/-- Behind a splice that keeps the length the text stays as it is. -/
theorem drop_splice_behind (hle : start ≤ stop) (hlen : stop ≤ text.length)
    (hkeep : fresh.length = stop - start) (hk : stop ≤ k) :
    (splice text start stop fresh).drop k = text.drop k := by
  have hfront : (text.take start ++ fresh).length = stop := by
    rw [List.length_append, List.length_take_of_le (hle.trans hlen)]
    omega
  obtain ⟨more, rfl⟩ := Nat.exists_eq_add_of_le hk
  rw [splice, ← List.drop_drop, List.drop_left' hfront, List.drop_drop]

/-- Two splices side by side may change places, if the one in front keeps the length. -/
theorem splice_splice_comm {start' stop' : Nat} {fresh' : Bytes} (hle : start ≤ stop)
    (hbetween : stop ≤ start') (hle' : start' ≤ stop') (hlen : stop' ≤ text.length)
    (hkeep : fresh.length = stop - start) :
    splice (splice text start stop fresh) start' stop' fresh' =
      splice (splice text start' stop' fresh') start stop fresh := by
  obtain ⟨front', middle', back', rfl, rfl, rfl⟩ := exists_between hle' hlen
  obtain ⟨front, middle, gap, rfl, rfl, rfl⟩ := exists_between hle hbetween
  have hsame : (front ++ middle ++ gap).length = (front ++ fresh ++ gap).length := by
    simp only [List.length_append]
    omega
  have hfirst : splice (front ++ middle ++ gap ++ middle' ++ back') front.length
      (front.length + middle.length) fresh = front ++ fresh ++ gap ++ middle' ++ back' := by
    have := splice_between front middle (gap ++ middle' ++ back') fresh
    simpa only [List.append_assoc] using this
  have hlast : splice (front ++ middle ++ gap ++ fresh' ++ back') front.length
      (front.length + middle.length) fresh = front ++ fresh ++ gap ++ fresh' ++ back' := by
    have := splice_between front middle (gap ++ fresh' ++ back') fresh
    simpa only [List.append_assoc] using this
  rw [hfirst, splice_between, hlast, hsame, splice_between]

/-- A boundary is where a valid text is left. -/
theorem Utf8.isBoundary_of_valid_drop (hi : i ≤ text.length) (h : Utf8.Valid (text.drop i)) :
    Utf8.isBoundary text i = true := by
  have hcut := Utf8.isBoundary_of_valid (text.take i) h
  rwa [List.take_append_drop, List.length_take_of_le hi] at hcut

namespace Edit

variable {e other : Edit} {es es' : List Edit} {file : Path} {content : Bytes} {t : FileTree}

/-! ## Edits of one look -/

/-- Makes one edit after another, each in the tree that the one before has left, up to the first
that fails. -/
def runEach : List Edit → FileTree → Except EditFailure (List EditOutcome × FileTree)
  | [], t => .ok ([], t)
  | e :: later, t =>
    match e.run t with
    | .error failure => .error failure
    | .ok (outcome, tree) =>
      (runEach later tree).map fun (outcomes, last) => (outcome :: outcomes, last)

/-- An edit that was made for what its span held in this content of its file. -/
structure Prepared (file : Path) (content : Bytes) (e : Edit) : Prop where
  made : e = .after file e.start e.stop e.fresh (slice content e.start e.stop)
  inRange : e.InRange content
  cutsNone : e.CutsNone content
  fresh : Utf8.Valid e.fresh

/-- The content with the fresh text in the span. -/
def patch (content : Bytes) (e : Edit) : Bytes := splice content e.start e.stop e.fresh

/-- What an edit has to tell of a content that holds what it expects. -/
def outcome (content : Bytes) (e : Edit) : EditOutcome :=
  if slice content e.start e.stop = e.fresh then .alreadyThere e.file
  else .written e.file e.fresh.length

/-- The content from an offset on, with every span replaced at once. The edits come in the order
of their spans. -/
def woven (content : Bytes) (i : Nat) : List Edit → Bytes
  | [] => content.drop i
  | e :: later => slice content i e.start ++ e.fresh ++ woven content e.stop later

/-- The fresh text is as long as the span. -/
def KeepsLength (e : Edit) : Prop := e.fresh.length = e.stop - e.start

/-- The spans have no byte in common, and none lies inside the other. -/
def Apart (e other : Edit) : Prop := other.stop ≤ e.start ∨ e.stop ≤ other.start

/-- The edit leaves the other span where it was seen. -/
def Spares (e other : Edit) : Prop :=
  other.stop ≤ e.start ∨ e.stop ≤ other.start ∧ e.KeepsLength

/-! ## One edit -/

/-- A prepared edit is made, and the file is patched then. -/
theorem exists_run_of_prepared (ht : t.Closed) (hread : t.read file = .ok content)
    (hvalid : Utf8.Valid content) (h : e.Prepared file content) :
    ∃ tree, e.run t = .ok (e.outcome content, tree) ∧ tree.Closed ∧
      tree.read file = .ok (e.patch content) := by
  have hfile : e.file = file := by rw [h.made]; rfl
  have hheld : e.expected.Holds (slice content e.start e.stop) := by
    rw [h.made]
    exact holds_after_iff.mpr (by split <;> rfl)
  have hfound : e.found content = .ok (slice content e.start e.stop) :=
    found_eq_ok_iff.mpr ⟨h.inRange, Utf8.valid_iff.mp hvalid, (cutsNone_iff hvalid).mp h.cutsNone,
      rfl, .inr hheld⟩
  subst hfile
  by_cases hfresh : slice content e.start e.stop = e.fresh
  · refine ⟨t, ?_, ht, ?_⟩
    · rw [outcome, if_pos hfresh]
      exact run_eq_alreadyThere_iff.mpr ⟨rfl, rfl, content, hread, hfresh ▸ hfound⟩
    · rw [patch, (splice_eq_self_iff h.inRange.1).mpr hfresh, hread]
  · obtain ⟨tree, hwrite⟩ := FileTree.exists_replaceFile ht hread (e.patch content)
    refine ⟨tree, ?_, ht.replaceFile hwrite, FileTree.read_replaceFile hread hwrite⟩
    rw [outcome, if_neg hfresh]
    exact run_eq_written_iff.mpr ⟨rfl, rfl, content, _, hread, hfound, hfresh, hwrite⟩

theorem Prepared.valid_patch (h : e.Prepared file content) (hvalid : Utf8.Valid content) :
    Utf8.Valid (e.patch content) := by
  obtain ⟨hstart, hstop⟩ := (cutsNone_iff hvalid).mp h.cutsNone
  exact hvalid.splice hstart hstop h.fresh

/-! ## What an edit leaves to another one -/

/-- A spared span holds what it has held. -/
theorem slice_patch (hin : e.InRange content) (hspares : e.Spares other) :
    slice (e.patch content) other.start other.stop = slice content other.start other.stop := by
  rcases hspares with hbefore | ⟨hbehind, hkeep⟩
  · exact slice_splice_before hbefore (hin.1.trans hin.2)
  · rw [slice, slice, List.drop_take, List.drop_take, patch,
      drop_splice_behind hin.1 hin.2 hkeep hbehind]

theorem length_patch (hin : e.InRange content) :
    (e.patch content).length + (e.stop - e.start) = content.length + e.fresh.length :=
  length_splice e.fresh hin.1 hin.2

/-- A cut before the span of an edit stays a cut between characters. -/
theorem isBoundary_patch_before (h : e.Prepared file content) (hvalid : Utf8.Valid content)
    (hi : Utf8.isBoundary content i = true) (hle : i ≤ e.start) :
    Utf8.isBoundary (e.patch content) i = true := by
  obtain ⟨hstart, hstop⟩ := (cutsNone_iff hvalid).mp h.cutsNone
  have hfront : i ≤ (content.take e.start).length := by
    rwa [List.length_take_of_le (Utf8.le_of_isBoundary hstart)]
  have hpatch : e.patch content =
      content.take e.start ++ (e.fresh ++ content.drop e.stop) := List.append_assoc _ _ _
  apply Utf8.isBoundary_of_valid_drop
  · rw [hpatch, List.length_append]
    omega
  · rw [hpatch, List.drop_append_of_le_length hfront]
    exact (hvalid.slice hi hstart hle).append (h.fresh.append (hvalid.parts hstop).2)

/-- So does a cut behind it, if the edit keeps the length. -/
theorem isBoundary_patch_behind (h : e.Prepared file content) (hvalid : Utf8.Valid content)
    (hi : Utf8.isBoundary content i = true) (hle : e.stop ≤ i) (hkeep : e.KeepsLength) :
    Utf8.isBoundary (e.patch content) i = true := by
  have hlen := length_patch h.inRange
  have hin := Utf8.le_of_isBoundary hi
  unfold KeepsLength at hkeep
  apply Utf8.isBoundary_of_valid_drop
  · omega
  · rw [patch, drop_splice_behind h.inRange.1 h.inRange.2 hkeep hle]
    exact (hvalid.parts hi).2

/-- An edit stays prepared when another one is made that spares it. -/
theorem Prepared.of_spares (h : e.Prepared file content) (hvalid : Utf8.Valid content)
    (hother : other.Prepared file content) (hspares : e.Spares other) :
    other.Prepared file (e.patch content) := by
  have hslice := slice_patch h.inRange hspares
  obtain ⟨hstart, hstop⟩ := (cutsNone_iff hvalid).mp hother.cutsNone
  have hle := hother.inRange.1
  have hcuts : Utf8.isBoundary (e.patch content) other.start = true ∧
      Utf8.isBoundary (e.patch content) other.stop = true := by
    rcases hspares with hbefore | ⟨hbehind, hkeep⟩
    · exact ⟨isBoundary_patch_before h hvalid hstart (hle.trans hbefore),
        isBoundary_patch_before h hvalid hstop hbefore⟩
    · exact ⟨isBoundary_patch_behind h hvalid hstart hbehind hkeep,
        isBoundary_patch_behind h hvalid hstop (hbehind.trans hle) hkeep⟩
  refine ⟨?_, ⟨hle, Utf8.le_of_isBoundary hcuts.2⟩,
    (cutsNone_iff (h.valid_patch hvalid)).mpr hcuts, hother.fresh⟩
  rw [hslice]
  exact hother.made

theorem outcome_patch (hin : e.InRange content) (hspares : e.Spares other) :
    other.outcome (e.patch content) = other.outcome content := by
  rw [outcome, outcome, slice_patch hin hspares]

/-! ## One edit after another -/

/-- Prepared edits that spare all later ones are all made, one patch after another. -/
theorem exists_runEach (ht : t.Closed) (hread : t.read file = .ok content)
    (hvalid : Utf8.Valid content) (hprepared : ∀ e ∈ es, e.Prepared file content)
    (hspares : es.Pairwise Spares) :
    ∃ tree, runEach es t = .ok (es.map (outcome content), tree) ∧
      tree.read file = .ok (es.foldl patch content) := by
  induction es generalizing t content with
  | nil => exact ⟨t, rfl, hread⟩
  | cons e later ih =>
    obtain ⟨hfirst, hrest⟩ := List.forall_mem_cons.mp hprepared
    obtain ⟨hspared, hpairs⟩ := List.pairwise_cons.mp hspares
    obtain ⟨tree, hrun, hclosed, hpatched⟩ := exists_run_of_prepared ht hread hvalid hfirst
    obtain ⟨last, hruns, hlast⟩ := ih hclosed hpatched (hfirst.valid_patch hvalid)
      (fun other hother => hfirst.of_spares hvalid (hrest other hother) (hspared other hother))
      hpairs
    have hsame : later.map (outcome (e.patch content)) = later.map (outcome content) :=
      List.map_congr_left fun other hother => outcome_patch hfirst.inRange (hspared other hother)
    refine ⟨last, ?_, hlast⟩
    rw [runEach, hrun]
    simp only [hruns, hsame]
    rfl

/-! ## From the last span to the first -/

theorem woven_eq_append (hik : i ≤ k) (hes : ∀ e ∈ es, k ≤ e.start) :
    woven content i es = slice content i k ++ woven content k es := by
  cases es with
  | nil => exact (slice_append_drop content hik).symm
  | cons e later =>
    have hk := hes e List.mem_cons_self
    rw [woven, woven, ← slice_append_slice content hik hk]
    simp only [List.append_assoc]

/-- Patches from the last span to the first replace all spans at once. Behind the span of the
last edit, everything is woven already. -/
theorem foldl_patch_eq_woven (hin : ∀ e ∈ es, e.InRange content)
    (horder : es.Pairwise fun e later => later.stop ≤ e.start) :
    es.foldl patch content = woven content 0 es.reverse := by
  induction es using List.reverseRecOn with
  | nil => rfl
  | append_singleton es e ih =>
    obtain ⟨hpairs, _, hlast⟩ := List.pairwise_append.mp horder
    have hwoven := ih (fun x hx => hin x (List.mem_append_left _ hx)) hpairs
    have hbehind : ∀ x ∈ es.reverse, e.stop ≤ x.start := fun x hx =>
      hlast x (List.mem_reverse.mp hx) e (List.mem_singleton.mpr rfl)
    obtain ⟨hle, hlen⟩ := hin e (List.mem_append_right _ (List.mem_singleton.mpr rfl))
    have hfront : (slice content 0 e.stop).length = e.stop := length_slice hlen
    rw [List.foldl_append, List.foldl_cons, List.foldl_nil, hwoven, List.reverse_append,
      List.reverse_singleton, List.singleton_append, woven, patch,
      woven_eq_append (Nat.zero_le e.stop) hbehind, splice, List.drop_left' hfront,
      List.take_append_of_le_length (by omega)]
    rw [slice, slice, List.drop_zero, List.drop_zero, List.take_take, Nat.min_eq_left hle]

/-! ## In any order -/

theorem Apart.symm (h : e.Apart other) : other.Apart e := Or.symm h

/-- Two edits that are apart and keep the length may change places. -/
theorem patch_comm (hin : e.InRange content) (hother : other.InRange content)
    (hapart : e.Apart other) (hkeep : e.KeepsLength) (hkeep' : other.KeepsLength) :
    other.patch (e.patch content) = e.patch (other.patch content) := by
  rcases hapart with hbefore | hbehind
  · exact (splice_splice_comm hother.1 hbefore hin.1 hin.2 hkeep').symm
  · exact splice_splice_comm hin.1 hbehind hother.1 hother.2 hkeep

theorem InRange.patch (hin : e.InRange content) (hother : other.InRange content)
    (hkeep : e.KeepsLength) : other.InRange (e.patch content) := by
  have hlen := length_patch hin
  unfold KeepsLength at hkeep
  exact ⟨hother.1, by have := hother.2; omega⟩

/-- Patches that are apart and keep the length come to the same in any order. -/
theorem foldl_patch_perm (hperm : es.Perm es') (hin : ∀ e ∈ es, e.InRange content)
    (hapart : es.Pairwise Apart) (hkeep : ∀ e ∈ es, e.KeepsLength) :
    es.foldl patch content = es'.foldl patch content := by
  induction hperm generalizing content with
  | nil => rfl
  | cons e _ ih =>
    obtain ⟨hfirst, hrest⟩ := List.forall_mem_cons.mp hin
    obtain ⟨hkept, hkeeps⟩ := List.forall_mem_cons.mp hkeep
    exact ih (fun x hx => hfirst.patch (hrest x hx) hkept) (List.pairwise_cons.mp hapart).2 hkeeps
  | swap e other later =>
    obtain ⟨hfirst, hrest⟩ := List.forall_mem_cons.mp hin
    obtain ⟨hkept, hkeeps⟩ := List.forall_mem_cons.mp hkeep
    have hpair := (List.pairwise_cons.mp hapart).1 e List.mem_cons_self
    rw [List.foldl_cons, List.foldl_cons, List.foldl_cons, List.foldl_cons,
      patch_comm hfirst (hrest e List.mem_cons_self) hpair hkept (hkeeps e List.mem_cons_self)]
  | trans hperm _ ih ih' =>
    have hapart' := (hperm.pairwise_iff Apart.symm).mp hapart
    rw [ih hin hapart hkeep]
    exact ih' (fun x hx => hin x (hperm.mem_iff.mpr hx)) hapart'
      (fun x hx => hkeep x (hperm.mem_iff.mpr hx))

/-! ## The law -/

/-- Edits that were all prepared on what the file holds now, each for a span before the spans of
the ones before it. Where writes do not fail, all of them are made, and the file then holds the
content with every span replaced at once: what stands between the spans, with the fresh texts
in the order of the spans. If every fresh text is as long as its span, they are made in any
order, and the file holds the same. An edit writes unless its span held the fresh text
already. -/
theorem edits_of_one_look_compose (ht : t.Closed) (hread : t.read file = .ok content)
    (hvalid : Utf8.Valid content) (hprepared : ∀ e ∈ es, e.Prepared file content)
    (horder : es.Pairwise fun e later => later.stop ≤ e.start) :
    (∃ tree, runEach es t = .ok (es.map (outcome content), tree) ∧
      tree.read file = .ok (woven content 0 es.reverse)) ∧
    ((∀ e ∈ es, e.fresh.length = e.stop - e.start) → ∀ es', es.Perm es' →
      ∃ tree, runEach es' t = .ok (es'.map (outcome content), tree) ∧
        tree.read file = .ok (woven content 0 es.reverse)) := by
  have hin : ∀ e ∈ es, e.InRange content := fun e he => (hprepared e he).inRange
  have hwoven := foldl_patch_eq_woven hin horder
  refine ⟨?_, fun hkeep es' hperm => ?_⟩
  · have hspares : es.Pairwise Spares := horder.imp fun hbefore => .inl hbefore
    rw [← hwoven]
    exact exists_runEach ht hread hvalid hprepared hspares
  · have hapart : es.Pairwise Apart := horder.imp fun hbefore => .inl hbefore
    have hspares : es'.Pairwise Spares := by
      apply ((hperm.pairwise_iff Apart.symm).mp hapart).imp_of_mem
      intro e other he _ h
      exact h.imp_right fun hbehind => ⟨hbehind, hkeep e (hperm.mem_iff.mpr he)⟩
    rw [← hwoven, foldl_patch_perm hperm hin hapart hkeep]
    exact exists_runEach ht hread hvalid
      (fun e he => hprepared e (hperm.mem_iff.mpr he)) hspares

/-- An edit of the word that was prepared on it. -/
def wordEditAt (start stop : Nat) (fresh : String) : Edit :=
  .after ⟨"/word"⟩ start stop (Utf8.bytes fresh) (slice (Utf8.bytes "aéz") start stop)

theorem prepared_wordEditAt {start stop : Nat} (fresh : String)
    (hin : start ≤ stop ∧ stop ≤ (Utf8.bytes "aéz").length)
    (hcuts : Utf8.isBoundary (Utf8.bytes "aéz") start = true ∧
      Utf8.isBoundary (Utf8.bytes "aéz") stop = true) :
    (wordEditAt start stop fresh).Prepared ⟨"/word"⟩ (Utf8.bytes "aéz") :=
  ⟨rfl, hin, (cutsNone_iff ⟨_, rfl⟩).mpr hcuts, ⟨_, rfl⟩⟩

/-- Two texts at one place, and a span beside it that is taken out. -/
def unevenEdits : List Edit :=
  [wordEditAt 3 4 "z!", wordEditAt 1 3 "", wordEditAt 1 1 "y", wordEditAt 1 1 "x"]

/-- The first edit finds its fresh text there. -/
def evenEdits : List Edit := [wordEditAt 3 4 "z", wordEditAt 1 3 "ö", wordEditAt 0 1 "b"]

theorem edits_of_the_word_compose :
    (∃ tree, runEach unevenEdits wordTree = .ok ([.written ⟨"/word"⟩ 2, .written ⟨"/word"⟩ 0,
        .written ⟨"/word"⟩ 1, .written ⟨"/word"⟩ 1], tree) ∧
      tree.read ⟨"/word"⟩ = .ok (Utf8.bytes "axyz!")) ∧
    ∃ tree, runEach evenEdits.reverse wordTree = .ok
        ([.written ⟨"/word"⟩ 1, .written ⟨"/word"⟩ 2, .alreadyThere ⟨"/word"⟩], tree) ∧
      tree.read ⟨"/word"⟩ = .ok (Utf8.bytes "böz") := by
  have hclosed : wordTree.Closed := by
    intro x hx
    rw [List.mem_singleton.mp hx]
    exact ⟨_, rfl⟩
  have hread : wordTree.read ⟨"/word"⟩ = .ok (Utf8.bytes "aéz") := by cbv
  have hvalid : Utf8.Valid (Utf8.bytes "aéz") := ⟨_, rfl⟩
  have huneven : ∀ e ∈ unevenEdits, e.Prepared ⟨"/word"⟩ (Utf8.bytes "aéz") := by
    simp only [unevenEdits, List.forall_mem_cons, List.not_mem_nil, false_implies, implies_true,
      and_true]
    refine ⟨?_, ?_, ?_, ?_⟩
    all_goals exact prepared_wordEditAt _ (by decide) (by decide)
  have heven : ∀ e ∈ evenEdits, e.Prepared ⟨"/word"⟩ (Utf8.bytes "aéz") := by
    simp only [evenEdits, List.forall_mem_cons, List.not_mem_nil, false_implies, implies_true,
      and_true]
    refine ⟨?_, ?_, ?_⟩
    all_goals exact prepared_wordEditAt _ (by decide) (by decide)
  obtain ⟨⟨tree, hruns, hholds⟩, _⟩ :=
    edits_of_one_look_compose hclosed hread hvalid huneven (by decide)
  obtain ⟨_, hany⟩ := edits_of_one_look_compose hclosed hread hvalid heven (by decide)
  obtain ⟨tree', hruns', hholds'⟩ := hany (by decide) _ (List.reverse_perm evenEdits).symm
  have houtcomes : unevenEdits.map (outcome (Utf8.bytes "aéz")) = [.written ⟨"/word"⟩ 2,
      .written ⟨"/word"⟩ 0, .written ⟨"/word"⟩ 1, .written ⟨"/word"⟩ 1] := by decide
  have houtcomes' : evenEdits.reverse.map (outcome (Utf8.bytes "aéz")) =
      [.written ⟨"/word"⟩ 1, .written ⟨"/word"⟩ 2, .alreadyThere ⟨"/word"⟩] := by decide
  have hwoven : woven (Utf8.bytes "aéz") 0 unevenEdits.reverse = Utf8.bytes "axyz!" := by decide
  have hwoven' : woven (Utf8.bytes "aéz") 0 evenEdits.reverse = Utf8.bytes "böz" := by decide
  rw [houtcomes] at hruns
  rw [houtcomes'] at hruns'
  rw [hwoven] at hholds
  rw [hwoven'] at hholds'
  exact ⟨⟨tree, hruns, hholds⟩, tree', hruns', hholds'⟩

end Edit

end AnchoredBlocks
