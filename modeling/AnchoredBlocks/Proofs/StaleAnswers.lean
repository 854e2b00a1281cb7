-- What the answer that a patch is already applied says about the file. A plan with work
-- left looks at the file again before it answers, so its answer is about the file as it is
-- now. A plan that has nothing to do does not look, and answers for the file as it was.
import AnchoredBlocks.Proofs.Previews
import AnchoredBlocks.Proofs.Retries

namespace AnchoredBlocks

namespace Plan

variable {d : Definition} {t now tree : FileTree} {w : Workspace} {p : Plan} {content : Bytes}
  {file : Path}

/-! ## The fresh block in its span -/

/-- The file can be read, and the span of the plan holds the fresh block. -/
def Stands (p : Plan) (t : FileTree) : Prop :=
  ∃ content, t.read p.file = .ok content ∧ p.span.stop ≤ content.length ∧
    p.span.block content = p.fresh

/-- The content is a text, and the span of the plan holds the fresh block in whole
characters. -/
structure Shows (p : Plan) (content : Bytes) : Prop where
  valid : Utf8.Valid content
  fits : p.span.Fits content
  block : p.span.block content = p.fresh

theorem Shows.stands (h : p.Shows content) (hread : t.read p.file = .ok content) : p.Stands t :=
  ⟨content, hread, Utf8.le_of_isBoundary h.fits.2.2, h.block⟩

theorem Stands.congr (h : p.Stands t) (hread : now.read p.file = t.read p.file) :
    p.Stands now := by
  obtain ⟨content, hcontent, hlen, hblock⟩ := h
  exact ⟨content, hread.trans hcontent, hlen, hblock⟩

/-- Nothing stands in a file that is gone. -/
theorem not_stands_of_unread {refusal : Refusal} (hread : t.read p.file = .error refusal) :
    ¬ p.Stands t := by
  rintro ⟨content, hcontent, _⟩
  rw [hread] at hcontent
  cases hcontent

/-! ## Plans with work left -/

/-- What the edit of a plan finds already there is what the file shows. -/
theorem found_fresh_iff : p.edit.found content = .ok p.fresh ↔ p.Shows content := by
  rw [Edit.found_eq_ok_iff]
  constructor
  · rintro ⟨hin, hvalid, hcut, hblock, _⟩
    exact ⟨Utf8.valid_iff.mpr hvalid, ⟨hin.1, hcut⟩, hblock.symm⟩
  · rintro ⟨hvalid, hfits, hblock⟩
    obtain ⟨hin, _⟩ := (fits_iff hvalid).mp hfits
    exact ⟨hin, Utf8.valid_iff.mp hvalid, hfits.2, hblock.symm, .inl rfl⟩

theorem carryOut_of_work_left (hdone : p.isDone = false) :
    p.carryOut now = .ok (.alreadyApplied file, tree) ↔ file = p.file ∧ tree = now ∧
      ∃ content, now.read p.file = .ok content ∧ p.Shows content := by
  rw [carryOut_eq_alreadyApplied_iff, hdone, Edit.run_eq_alreadyThere_iff]
  constructor
  · rintro ⟨hfile, htree, hnothing | ⟨_, _, content, hread, hfound⟩⟩
    · cases hnothing
    · exact ⟨hfile, htree, content, hread, found_fresh_iff.mp hfound⟩
  · rintro ⟨hfile, htree, content, hread, hshows⟩
    exact ⟨hfile, htree, .inr ⟨rfl, rfl, content, hread, found_fresh_iff.mpr hshows⟩⟩

theorem stands_of_work_left (hdone : p.isDone = false)
    (hcarry : p.carryOut now = .ok (.alreadyApplied file, tree)) : p.Stands now := by
  obtain ⟨_, _, content, hread, hshows⟩ := (carryOut_of_work_left hdone).mp hcarry
  exact hshows.stands hread

/-! ## Plans with nothing to do -/

/-- The fresh block stood in its span when the plan was made. -/
theorem stands_of_isDone (hplan : d.plan t w = .ok p) (hdone : p.isDone = true) : p.Stands t := by
  obtain ⟨hread, _, _, hlen⟩ := Definition.plan_facts hplan
  exact ⟨p.content, hread, hlen, of_decide_eq_true hdone⟩

/-- The answer is right while the file is as it was. -/
theorem stands_of_same_file (hplan : d.plan t w = .ok p) (hread : now.read p.file = t.read p.file)
    (hcarry : p.carryOut now = .ok (.alreadyApplied file, tree)) : p.Stands now := by
  cases hdone : p.isDone with
  | true => exact (stands_of_isDone hplan hdone).congr hread
  | false => exact stands_of_work_left hdone hcarry

/-- In a tree without files no block stands anywhere, and a plan with nothing to do still gives
its answer. -/
theorem exists_stale_answer (hdone : p.isDone = true) :
    ∃ now, p.carryOut now = .ok (.alreadyApplied p.file, now) ∧ ¬ p.Stands now := by
  refine ⟨{}, carryOut_of_isDone hdone, ?_⟩
  rintro ⟨content, hread, _⟩
  obtain ⟨l, mode, _, he⟩ := FileTree.read_eq_ok_iff.mp hread
  unfold FileTree.entry? at he
  split at he
  · cases he
  · cases he

/-! ## The law -/

/-- A plan with work left answers that it is already applied exactly if the file is there and
shows the fresh block, at the moment of the answer. A plan with nothing to do gives that
answer about any tree. It was right about the tree of the plan, and is right as long as the
file is as it was. So the answer can be relied upon in every tree only if the plan had work
left, and the answer of a patch can be relied upon in its own tree. -/
theorem only_work_left_looks_again (hplan : d.plan t w = .ok p) :
    (p.isDone = false → ∀ now file tree, p.carryOut now = .ok (.alreadyApplied file, tree) ↔
      file = p.file ∧ tree = now ∧
        ∃ content, now.read p.file = .ok content ∧ p.Shows content) ∧
    (p.isDone = true →
      p.Stands t ∧ ∀ now, p.carryOut now = .ok (.alreadyApplied p.file, now)) ∧
    (∀ now file tree, now.read p.file = t.read p.file →
      p.carryOut now = .ok (.alreadyApplied file, tree) → p.Stands now) ∧
    ((∀ now file tree, p.carryOut now = .ok (.alreadyApplied file, tree) → p.Stands now) ↔
      p.isDone = false) ∧
    ∀ file tree, d.patch t w = .ok (.alreadyApplied file, tree) → p.Stands t := by
  refine ⟨?_, ?_, ?_, ⟨?_, ?_⟩, ?_⟩
  · intro hdone now file tree
    exact carryOut_of_work_left hdone
  · intro hdone
    refine ⟨stands_of_isDone hplan hdone, ?_⟩
    intro now
    exact carryOut_of_isDone hdone
  · intro now file tree hread hcarry
    exact stands_of_same_file hplan hread hcarry
  · intro hrelied
    by_contra hdone
    obtain ⟨now, hcarry, hnot⟩ := exists_stale_answer (Bool.not_eq_false _ ▸ hdone)
    exact hnot (hrelied now p.file now hcarry)
  · intro hdone now file tree hcarry
    exact stands_of_work_left hdone hcarry
  · intro file tree hpatch
    rw [Definition.patch_of_plan hplan] at hpatch
    exact stands_of_same_file hplan rfl hpatch

/-- For the notes as they are there is nothing to do, and other notes leave work. Only then is
the answer about the notes as they are found. -/
theorem only_other_notes_are_looked_at_again :
    (∀ now file tree,
      (notesPlan "<k> new </k>").carryOut now = .ok (.alreadyApplied file, tree) →
        (notesPlan "<k> new </k>").Stands now) ∧
    (notesPlan "<k> old </k>").Stands smallTree ∧
    ∀ now, (notesPlan "<k> old </k>").carryOut now = .ok (.alreadyApplied ⟨"/ws/notes"⟩, now) := by
  have hnew : (notesPlan "<k> new </k>").isDone = false := by decide
  have hold : (notesPlan "<k> old </k>").isDone = true := by decide
  obtain ⟨_, _, _, hrelied, _⟩ := only_work_left_looks_again (plan_notesPatch "<k> new </k>")
  obtain ⟨_, hnothing, _⟩ := only_work_left_looks_again (plan_notesPatch "<k> old </k>")
  obtain ⟨hstands, hanswers⟩ := hnothing hold
  exact ⟨hrelied.mpr hnew, hstands, hanswers⟩

/-- The small workspace without the file. -/
def bareTree : FileTree := smallTree.erase ⟨["ws", "notes"]⟩

/-- The plan for the notes as they are is told to be applied when the notes were rewritten, and
when they are gone. Any other plan is refused there. -/
theorem the_answer_about_the_notes_is_stale :
    (notesPatch "<k> old </k>").plan smallTree smallWorkspace = .ok (notesPlan "<k> old </k>") ∧
    ((notesPlan "<k> old </k>").carryOut (notesTree "gone") =
        .ok (.alreadyApplied ⟨"/ws/notes"⟩, notesTree "gone") ∧
      ¬ (notesPlan "<k> old </k>").Stands (notesTree "gone") ∧
      (notesPlan "<k> new </k>").carryOut (notesTree "gone") =
        .error (.notEdited (.badSpan 0 12 4))) ∧
    (notesPlan "<k> old </k>").carryOut bareTree =
        .ok (.alreadyApplied ⟨"/ws/notes"⟩, bareTree) ∧
      ¬ (notesPlan "<k> old </k>").Stands bareTree ∧
      (notesPlan "<k> new </k>").carryOut bareTree =
        .error (.notEdited (.unreadable .notFound)) := by
  have hdone : (notesPlan "<k> old </k>").isDone = true := by decide
  have hread : (notesTree "gone").read ⟨"/ws/notes"⟩ = .ok (Utf8.bytes "gone") := by cbv
  have hbare : bareTree.read ⟨"/ws/notes"⟩ = .error .notFound := by cbv
  refine ⟨plan_notesPatch _, ⟨carryOut_of_isDone hdone, ?_, by cbv⟩, carryOut_of_isDone hdone, ?_,
    by cbv⟩
  · rintro ⟨content, hcontent, hlen, _⟩
    obtain rfl : Utf8.bytes "gone" = content := Except.ok.inj (hread.symm.trans hcontent)
    exact absurd hlen (by decide)
  · exact not_stands_of_unread hbare

end Plan

end AnchoredBlocks
