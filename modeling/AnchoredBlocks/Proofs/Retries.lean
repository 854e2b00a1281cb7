-- A plan that is carried out a second time. The offsets are those of the old
-- block, but the fresh block stands there now. No block begins another one, so
-- what is found in the span is never taken for the old block.
import AnchoredBlocks.Proofs.EditRulings
import AnchoredBlocks.Proofs.Surroundings

namespace AnchoredBlocks

/-! ## No block begins another one -/

namespace Markers

variable {m : Markers} {block other back : Bytes} {a b : Nat}

theorem find_append (h : m.find block = .ok ⟨0, block.length, a⟩) (back : Bytes) :
    m.find (block ++ back) = .ok ⟨0, block.length, a⟩ := by
  have hfirst : m.NoAnchorBefore ([] ++ block ++ back) 0 := fun i _ => Nat.zero_le i
  simpa using find_between h hfirst

/-- A block that begins another one is all of it. -/
theorem eq_of_begins (h : m.find block = .ok ⟨0, block.length, a⟩)
    (hother : m.find other = .ok ⟨0, other.length, b⟩) (hbegins : block <+: other) :
    block = other := by
  obtain ⟨back, rfl⟩ := hbegins
  have hspan := Except.ok.inj ((find_append h back).symm.trans hother)
  exact List.prefix_append _ _ |>.eq_of_length (congrArg Span.stop hspan)

end Markers

/-! ## What stands in the old span -/

/-- After a splice, the old span and the fresh text begin in the same way. One of them may
end before the other. -/
theorem slice_splice_begins {text fresh : Bytes} {start stop : Nat} (hle : start ≤ stop)
    (hlen : stop ≤ text.length) :
    slice (splice text start stop fresh) start stop <+: fresh ∨
      fresh <+: slice (splice text start stop fresh) start stop := by
  have hfront : (text.take start).length = start := List.length_take_of_le (hle.trans hlen)
  have hdrop : (splice text start stop fresh).drop start = fresh ++ text.drop stop := by
    unfold splice
    rw [List.append_assoc, List.drop_left' hfront]
  have hslice : slice (splice text start stop fresh) start stop <+: fresh ++ text.drop stop := by
    rw [← hdrop, slice, List.drop_take]
    exact List.take_prefix _ _
  exact List.prefix_or_prefix_of_prefix hslice (List.prefix_append _ _)

/-- A fresh text of the same length fills the old span. -/
theorem slice_splice_of_length {text fresh : Bytes} {start stop : Nat} (hle : start ≤ stop)
    (hlen : stop ≤ text.length) (hfresh : fresh.length = stop - start) :
    slice (splice text start stop fresh) start stop = fresh := by
  have hfront : (text.take start).length = start := List.length_take_of_le (hle.trans hlen)
  have hstop : stop = (text.take start).length + fresh.length := by omega
  have hmid := slice_between (text.take start) fresh (text.drop stop)
  rwa [← hstop, hfront] at hmid

namespace Plan

variable {d : Definition} {t now done later : FileTree} {w : Workspace} {p : Plan}
  {content : Bytes}

/-! ## A plan that is refused -/

theorem fits_iff (hvalid : Utf8.Valid content) :
    p.span.Fits content ↔ p.edit.InRange content ∧ p.edit.CutsNone content := by
  rw [Edit.cutsNone_iff hvalid]
  constructor
  · rintro ⟨hle, hstart, hstop⟩
    exact ⟨⟨hle, Utf8.le_of_isBoundary hstop⟩, hstart, hstop⟩
  · rintro ⟨⟨hle, _⟩, hstart, hstop⟩
    exact ⟨hle, hstart, hstop⟩

/-- A plan fails where its span holds neither the fresh block nor what was expected, and where
the span does not fit any more. -/
theorem carryOut_of_refused (hdone : p.isDone = false) (hread : t.read p.file = .ok content)
    (hvalid : Utf8.Valid content)
    (hfresh : p.span.Fits content → p.span.block content ≠ p.fresh)
    (hheld : p.span.Fits content → ¬ p.edit.expected.Holds (p.span.block content)) :
    p.carryOut t = .error (.notEdited
      (if p.span.Fits content then
        .changed p.file p.span.start p.span.stop (p.span.block content)
      else .badSpan p.span.start p.span.stop content.length)) := by
  have hread' : t.read p.edit.file = .ok content := hread
  have hfound : p.edit.found content = .error
      (if p.span.Fits content then
        .changed p.file p.span.start p.span.stop (p.span.block content)
      else .badSpan p.span.start p.span.stop content.length) := by
    cases hfound : p.edit.found content with
    | ok text =>
      obtain ⟨hin, _, hcut, rfl, hheld'⟩ := Edit.found_eq_ok_iff.mp hfound
      have hfits : p.span.Fits content := ⟨hin.1, hcut⟩
      exact (hheld'.elim (hfresh hfits) (hheld hfits)).elim
    | error failure =>
      have hruling := Edit.ruling_of_found_error hfound
      cases hruling with
      | outOfRange hout => rw [if_neg fun hfits => hout ((fits_iff hvalid).mp hfits).1]; rfl
      | notText _ hno => exact absurd hvalid hno
      | cutCharacter _ _ hcut => rw [if_neg fun hfits => hcut ((fits_iff hvalid).mp hfits).2]; rfl
      | changed hin _ hnone => rw [if_pos ((fits_iff hvalid).mpr ⟨hin, hnone⟩)]; rfl
  unfold carryOut Edit.run
  simp only [hdone, hread', hfound, Bool.false_eq_true, if_false]

/-- A plan has nothing to do where its span holds the fresh block. -/
theorem carryOut_of_there (hread : t.read p.file = .ok content) (hvalid : Utf8.Valid content)
    (hfits : p.span.Fits content) (hfresh : p.span.block content = p.fresh) :
    p.carryOut t = .ok (.alreadyApplied p.file, t) := by
  obtain ⟨hin, _⟩ := (fits_iff hvalid).mp hfits
  apply carryOut_eq_alreadyApplied_iff.mpr
  refine ⟨rfl, rfl, .inr (Edit.run_eq_alreadyThere_iff.mpr ⟨rfl, rfl, content, hread, ?_⟩)⟩
  exact Edit.found_eq_ok_iff.mpr
    ⟨hin, Utf8.valid_iff.mp hvalid, hfits.2, hfresh.symm, .inl rfl⟩

/-! ## After the first time -/

/-- A plan that was applied has put the fresh block into a content where its span fitted. -/
theorem exists_splice_of_applied {file : Path} {bytes : Nat}
    (h : p.carryOut now = .ok (.applied file bytes, done)) : p.isDone = false ∧
    ∃ old, Utf8.Valid old ∧ p.span.Fits old ∧ p.span.stop ≤ old.length ∧
      done.read p.file = .ok (splice old p.span.start p.span.stop p.fresh) := by
  obtain ⟨_, old, _, hexpects, hdone⟩ := applied_to_what_is_there h
  exact ⟨(carryOut_eq_applied_iff.mp h).1, old, hexpects.valid, hexpects.fits,
    hexpects.stop_le, hdone⟩

/-- The block of a plan is a block by itself, and as long as its span. -/
theorem block_facts (h : d.plan t w = .ok p) :
    (∃ a, d.markers.find p.block = .ok ⟨0, p.block.length, a⟩) ∧
      p.block.length = p.span.stop - p.span.start := by
  obtain ⟨_, _, hspan⟩ := Definition.readBlock_eq_ok_iff.mp (Definition.plan_eq_ok_iff.mp h).2
  have hfind : d.markers.find p.content = .ok p.span := Definition.find_of_findBlock hspan
  refine ⟨⟨_, Markers.find_block hfind⟩, ?_⟩
  exact length_slice (Markers.find_bounds hfind).2.2

/-- A fresh block of another length never leaves the old block in its span: of two texts that
begin in the same way, both would be blocks. -/
theorem block_splice_ne {old : Bytes} {a : Nat} (hplan : d.plan t w = .ok p)
    (hfresh : d.markers.find p.fresh = .ok ⟨0, p.fresh.length, a⟩)
    (hne : p.fresh.length ≠ p.block.length) (hle : p.span.start ≤ p.span.stop)
    (hlen : p.span.stop ≤ old.length) :
    p.span.block (splice old p.span.start p.span.stop p.fresh) ≠ p.block := by
  obtain ⟨⟨b, hblock⟩, _⟩ := block_facts hplan
  intro heq
  have hbegins : p.span.block (splice old p.span.start p.span.stop p.fresh) <+: p.fresh ∨
      p.fresh <+: p.span.block (splice old p.span.start p.span.stop p.fresh) :=
    slice_splice_begins hle hlen
  rw [heq] at hbegins
  rcases hbegins with hshort | hlong
  · exact hne (congrArg List.length (Markers.eq_of_begins hblock hfresh hshort)).symm
  · exact hne (congrArg List.length (Markers.eq_of_begins hfresh hblock hlong))

/-- A fresh block of the same length fits into the old span. -/
theorem fits_splice {old : Bytes} (hvalid : Utf8.Valid old) (hfresh : Utf8.Valid p.fresh)
    (hfits : p.span.Fits old) (hlen : p.fresh.length = p.span.stop - p.span.start) :
    p.span.Fits (splice old p.span.start p.span.stop p.fresh) := by
  obtain ⟨hle, hstart, hstop⟩ := hfits
  have hfront : (old.take p.span.start).length = p.span.start :=
    List.length_take_of_le (Utf8.le_of_isBoundary hstart)
  have hmid : (old.take p.span.start ++ p.fresh).length = p.span.stop := by
    rw [List.length_append]
    omega
  have hback := (hvalid.parts hstop).2
  refine ⟨hle, ?_, ?_⟩
  · have := Utf8.isBoundary_of_valid (old.take p.span.start) (hfresh.append hback)
    rwa [← List.append_assoc, hfront] at this
  · have := Utf8.isBoundary_of_valid (old.take p.span.start ++ p.fresh) hback
    rwa [hmid] at this

/-! ## The law -/

/-- After a plan with a fresh block that is a block by itself was applied, and as long as its
file stays as it is, the plan can be carried out again and nothing changes. A fresh block of
the same length is found in its span. With any other length the plan fails: the span holds
something else than the old block, or it does not fit any more. A block that is only known by
its hash has to have another hash than what is found. -/
theorem a_second_try_changes_nothing {file : Path} {bytes a : Nat} (hplan : d.plan t w = .ok p)
    (hfresh : d.markers.find p.fresh = .ok ⟨0, p.fresh.length, a⟩)
    (hdone : p.carryOut now = .ok (.applied file bytes, done))
    (hsame : later.read p.file = done.read p.file)
    (hhash : 1024 < p.block.length → ∀ content, later.read p.file = .ok content →
      p.span.Fits content → blockHash (p.span.block content) = blockHash p.block →
      p.span.block content = p.block) :
    treeAfter later (p.carryOut later) = later ∧
    (p.fresh.length = p.block.length →
      p.carryOut later = .ok (.alreadyApplied p.file, later)) ∧
    (p.fresh.length ≠ p.block.length → ∃ content, later.read p.file = .ok content ∧
      p.carryOut later = .error (.notEdited
        (if p.span.Fits content then
          .changed p.file p.span.start p.span.stop (p.span.block content)
        else .badSpan p.span.start p.span.stop content.length))) := by
  obtain ⟨hnot, old, hvalid, hfits, hlen, hread⟩ := exists_splice_of_applied hdone
  have hread' := hsame.trans hread
  have hfreshValid := Definition.valid_of_freshBlock (Definition.plan_eq_ok_iff.mp hplan).1
  have hvalid' := hvalid.splice hfits.2.1 hfits.2.2 hfreshValid
  have hlength := (block_facts hplan).2
  have hequal (h : p.fresh.length = p.block.length) :
      p.carryOut later = .ok (.alreadyApplied p.file, later) :=
    carryOut_of_there hread' hvalid' (fits_splice hvalid hfreshValid hfits (h.trans hlength))
      (slice_splice_of_length hfits.1 hlen (h.trans hlength))
  have hother (h : p.fresh.length ≠ p.block.length) := by
    have hblock := block_splice_ne hplan hfresh h hfits.1 hlen
    refine carryOut_of_refused hnot hread' hvalid' (fun hin heq => ?_) (fun hin hheld => ?_)
    · have hsize := congrArg List.length heq
      rw [Span.block, length_slice (Utf8.le_of_isBoundary hin.2.2), ← hlength] at hsize
      exact h hsize.symm
    · rw [edit, Edit.holds_after_iff] at hheld
      split at hheld
      · exact hblock hheld
      · rename_i hlong
        exact hblock (hhash (Nat.lt_of_not_le hlong) _ hread' hin hheld)
  refine ⟨?_, hequal, fun h => ⟨_, hread', hother h⟩⟩
  by_cases h : p.fresh.length = p.block.length
  · rw [hequal h]
    rfl
  · rw [hother h]
    rfl

/-- Any fresh block for the file of the small workspace. -/
def notesPatch (fresh : String) : Definition :=
  .inline "notes" ⟨"k", "<", "</k>"⟩ { text := some fresh }

def notesPlan (fresh : String) : Plan :=
  ⟨⟨⟨"/ws/notes"⟩, Utf8.bytes "<k> old </k>", ⟨0, 12, 1⟩⟩, Utf8.bytes fresh⟩

theorem plan_notesPatch (fresh : String) :
    (notesPatch fresh).plan smallTree smallWorkspace = .ok (notesPlan fresh) := by
  have hfresh : (notesPatch fresh).freshBlock smallTree = .ok (Utf8.bytes fresh) :=
    Definition.freshBlock_of_text rfl (by cbv)
  have hblock : (notesPatch fresh).readBlock smallTree smallWorkspace =
      .ok ⟨⟨"/ws/notes"⟩, Utf8.bytes "<k> old </k>", ⟨0, 12, 1⟩⟩ := by cbv
  exact Definition.plan_eq_ok_iff.mpr ⟨hfresh, hblock⟩

/-- The small workspace with another content in the file. -/
def notesTree (content : String) : FileTree :=
  smallTree.put ⟨["ws", "notes"]⟩ (.file (Utf8.bytes content) 0o644)

/-- Others have added to the file before the first try. A longer fresh block is cut off by the
old span. -/
theorem a_second_try_finds_the_fresh_block_or_fails :
    ((notesPlan "<k> new </k>").carryOut (notesTree "<k> old </k> more") =
        .ok (.applied ⟨"/ws/notes"⟩ 12, notesTree "<k> new </k> more") ∧
      (notesPlan "<k> new </k>").carryOut (notesTree "<k> new </k> more") =
        .ok (.alreadyApplied ⟨"/ws/notes"⟩, notesTree "<k> new </k> more")) ∧
    (notesPlan "<k> newer </k>").carryOut (notesTree "<k> old </k> more") =
        .ok (.applied ⟨"/ws/notes"⟩ 14, notesTree "<k> newer </k> more") ∧
      (notesPlan "<k> newer </k>").carryOut (notesTree "<k> newer </k> more") = .error
        (.notEdited (.changed ⟨"/ws/notes"⟩ 0 12 (Utf8.bytes "<k> newer </"))) := by
  have hshort {fresh : String} : ¬ 1024 < (notesPlan fresh).block.length := by
    show ¬ 1024 < (Utf8.bytes "<k> old </k>").length
    decide
  refine ⟨?_, ?_⟩
  · have hdone : (notesPlan "<k> new </k>").carryOut (notesTree "<k> old </k> more") =
        .ok (.applied ⟨"/ws/notes"⟩ 12, notesTree "<k> new </k> more") := by cbv
    have hfresh : (notesPatch "<k> new </k>").markers.find (notesPlan "<k> new </k>").fresh =
        .ok ⟨0, (notesPlan "<k> new </k>").fresh.length, 1⟩ := by decide
    obtain ⟨_, hsame, _⟩ := a_second_try_changes_nothing (plan_notesPatch _) hfresh hdone rfl
      (fun hlong => absurd hlong hshort)
    exact ⟨hdone, hsame (by decide)⟩
  · have hdone : (notesPlan "<k> newer </k>").carryOut (notesTree "<k> old </k> more") =
        .ok (.applied ⟨"/ws/notes"⟩ 14, notesTree "<k> newer </k> more") := by cbv
    have hfresh : (notesPatch "<k> newer </k>").markers.find (notesPlan "<k> newer </k>").fresh =
        .ok ⟨0, (notesPlan "<k> newer </k>").fresh.length, 1⟩ := by decide
    have hread : (notesTree "<k> newer </k> more").read ⟨"/ws/notes"⟩ =
        .ok (Utf8.bytes "<k> newer </k> more") := by cbv
    obtain ⟨_, _, hfails⟩ := a_second_try_changes_nothing (plan_notesPatch _) hfresh hdone rfl
      (fun hlong => absurd hlong hshort)
    obtain ⟨content, hcontent, herror⟩ := hfails (by decide)
    obtain rfl : Utf8.bytes "<k> newer </k> more" = content :=
      Except.ok.inj (hread.symm.trans hcontent)
    rw [if_pos (by decide)] at herror
    exact ⟨hdone, herror⟩

/-- A fresh text that holds more than a block goes in once more. -/
example : (notesPlan "<k> old </k>!").carryOut (notesTree "<k> old </k>") =
      .ok (.applied ⟨"/ws/notes"⟩ 13, notesTree "<k> old </k>!") ∧
    (notesPlan "<k> old </k>!").carryOut (notesTree "<k> old </k>!") =
      .ok (.applied ⟨"/ws/notes"⟩ 13, notesTree "<k> old </k>!!") := by
  refine ⟨?_, ?_⟩
  all_goals cbv

end Plan

end AnchoredBlocks
