-- How an edit is decided. One look at the content settles it: the range of the
-- span, the characters of the content, the cuts at both ends, the fresh text and
-- what was expected, in this order. An earlier case hides all later ones.
import AnchoredBlocks.Proofs.SharedTrees

namespace AnchoredBlocks

/-! ## Cuts between characters -/

namespace Utf8

/-- The offset stands between two characters of the text, or at one of its ends. -/
def BetweenCharacters (text : Bytes) (i : Nat) : Prop :=
  ∃ before after, text = encode before ++ encode after ∧ i = (encode before).length

theorem betweenCharacters_iff {text : Bytes} {i : Nat} (h : Valid text) :
    BetweenCharacters text i ↔ isBoundary text i = true := by
  constructor
  · rintro ⟨before, after, rfl, rfl⟩
    exact isBoundary_append _ _
  · intro hi
    obtain ⟨cs, rfl⟩ := h
    obtain ⟨before, after, rfl, rfl⟩ := exists_split_of_isBoundary hi
    exact ⟨before, after, encode_append _ _, rfl⟩

end Utf8

namespace Edit

variable {e : Edit} {t : FileTree} {content : Bytes}

/-! ## The ruling -/

/-- The span lies within the content. -/
def InRange (e : Edit) (content : Bytes) : Prop := e.start ≤ e.stop ∧ e.stop ≤ content.length

instance (e : Edit) (content : Bytes) : Decidable (e.InRange content) := by
  unfold InRange; infer_instance

/-- Neither end of the span cuts a character. -/
def CutsNone (e : Edit) (content : Bytes) : Prop :=
  Utf8.BetweenCharacters content e.start ∧ Utf8.BetweenCharacters content e.stop

/-- What an edit has to answer when its file holds the content, and what the file holds
then. -/
inductive Ruling (e : Edit) (content : Bytes) : Except EditFailure EditOutcome → Bytes → Prop
  | outOfRange : ¬ e.InRange content →
      Ruling e content (.error (.badSpan e.start e.stop content.length)) content
  | notText {fault : Utf8.Fault} : e.InRange content → ¬ Utf8.Valid content →
      Utf8.decode content = .error fault → Ruling e content (.error (.notUtf8 fault)) content
  | cutCharacter : e.InRange content → Utf8.Valid content → ¬ e.CutsNone content →
      Ruling e content (.error (.badSpan e.start e.stop content.length)) content
  | alreadyThere : e.InRange content → Utf8.Valid content → e.CutsNone content →
      slice content e.start e.stop = e.fresh →
      Ruling e content (.ok (.alreadyThere e.file)) content
  | changed : e.InRange content → Utf8.Valid content → e.CutsNone content →
      slice content e.start e.stop ≠ e.fresh →
      ¬ e.expected.Holds (slice content e.start e.stop) →
      Ruling e content
        (.error (.changed e.file e.start e.stop (slice content e.start e.stop))) content
  | written : e.InRange content → Utf8.Valid content → e.CutsNone content →
      slice content e.start e.stop ≠ e.fresh →
      e.expected.Holds (slice content e.start e.stop) →
      Ruling e content (.ok (.written e.file e.fresh.length))
        (content.take e.start ++ e.fresh ++ content.drop e.stop)

/-- No two cases hold at once. -/
theorem Ruling.unique {answer other : Except EditFailure EditOutcome} {left left' : Bytes}
    (h : e.Ruling content answer left) (h' : e.Ruling content other left') :
    answer = other ∧ left = left' := by
  cases h <;> cases h' <;> simp_all

theorem cutsNone_iff (h : Utf8.Valid content) : e.CutsNone content ↔
    Utf8.isBoundary content e.start = true ∧ Utf8.isBoundary content e.stop = true :=
  and_congr (Utf8.betweenCharacters_iff h) (Utf8.betweenCharacters_iff h)

/-! ## The edit and the ruling -/

/-- What stops an edit before it writes is by the ruling. -/
theorem ruling_of_found_error {failure : EditFailure} (h : e.found content = .error failure) :
    e.Ruling content (.error failure) content := by
  unfold found at h
  simp only at h
  split at h
  · rename_i hrange
    cases h
    exact .outOfRange fun ⟨hle, hlen⟩ => by omega
  · rename_i hrange
    have hin : e.InRange content := ⟨by omega, by omega⟩
    split at h
    · rename_i fault hfault
      cases h
      refine .notText hin (fun hvalid => ?_) hfault
      obtain ⟨cs, hcs⟩ := Utf8.valid_iff.mp hvalid
      rw [hcs] at hfault
      cases hfault
    · rename_i cs hcs
      have hvalid : Utf8.Valid content := Utf8.valid_iff.mpr ⟨cs, hcs⟩
      split at h
      · rename_i hcut
        cases h
        refine .cutCharacter hin hvalid fun hnone => ?_
        obtain ⟨hstart, hstop⟩ := (cutsNone_iff hvalid).mp hnone
        simp [hstart, hstop] at hcut
      · rename_i hcut
        split at h
        · cases h
        · rename_i hheld
          cases h
          obtain ⟨hfresh, hholds⟩ := not_or.mp hheld
          exact .changed hin hvalid ((cutsNone_iff hvalid).mpr (by simpa using hcut)) hfresh hholds

/-- An edit of a file that can be read answers, and its answer is by the ruling. -/
theorem exists_ruling_run (ht : t.Closed) (hread : t.read e.file = .ok content) :
    ∃ left, (treeAfter t (e.run t)).read e.file = .ok left ∧
      e.Ruling content ((e.run t).map Prod.fst) left := by
  cases hfound : e.found content with
  | error failure =>
    have hrun : e.run t = .error failure := by simp only [run, hread, hfound]
    rw [hrun]
    exact ⟨content, hread, ruling_of_found_error hfound⟩
  | ok text =>
    obtain ⟨hin, hcs, hcut, rfl, hheld⟩ := found_eq_ok_iff.mp hfound
    have hvalid : Utf8.Valid content := Utf8.valid_iff.mpr hcs
    have hnone : e.CutsNone content := (cutsNone_iff hvalid).mpr hcut
    by_cases hfresh : slice content e.start e.stop = e.fresh
    · rw [run_eq_alreadyThere_iff.mpr ⟨rfl, rfl, content, hread, hfresh ▸ hfound⟩]
      exact ⟨content, hread, .alreadyThere hin hvalid hnone hfresh⟩
    · obtain ⟨tree, hwrite⟩ := FileTree.exists_replaceFile ht hread
        (splice content e.start e.stop e.fresh)
      rw [run_eq_written_iff.mpr ⟨rfl, rfl, content, _, hread, hfound, hfresh, hwrite⟩]
      exact ⟨_, FileTree.read_replaceFile hread hwrite,
        .written hin hvalid hnone hfresh (hheld.resolve_left hfresh)⟩

/-- An edit that does not write leaves the tree as it is. -/
theorem treeAfter_run (h : ∀ file bytes tree, e.run t ≠ .ok (.written file bytes, tree)) :
    treeAfter t (e.run t) = t := by
  cases hrun : e.run t with
  | error failure => rfl
  | ok done =>
    obtain ⟨outcome, tree⟩ := done
    cases outcome with
    | written file bytes => exact absurd hrun (h _ _ _)
    | alreadyThere file => exact (run_eq_alreadyThere_iff.mp hrun).2.1

/-- What an edit expects that was made for a text that was seen. -/
theorem holds_after_iff {file : Path} {start stop : Nat} {fresh seen text : Bytes} :
    (after file start stop fresh seen).expected.Holds text ↔
      if seen.length ≤ 1024 then text = seen else blockHash text = blockHash seen := by
  show (Expectation.of seen).Holds text ↔ _
  rw [Expectation.holds_of_iff, Expectation.textLimit]
  by_cases hlong : seen.length ≤ 1024
  · rw [if_neg (Nat.not_lt.mpr hlong), if_pos hlong]
  · rw [if_pos (Nat.lt_of_not_le hlong), if_neg hlong]

/-- An edit of a file that can be read answers by the ruling and in no other way, and the file
then holds what the ruling says. What is written is text again, of the length that the span
and the fresh text make. An edit that was made for a text that was seen expects that text, or
its hash where it is long. Unless the edit writes, the tree stays as it is. -/
theorem an_edit_follows_its_ruling (t : FileTree) (ht : t.Closed) (e : Edit)
    (hfresh : Utf8.Valid e.fresh) (content : Bytes) (hread : t.read e.file = .ok content) :
    (∀ answer left, (e.run t).map Prod.fst = answer ∧
      (treeAfter t (e.run t)).read e.file = .ok left ↔ e.Ruling content answer left) ∧
    (∀ file bytes left, e.Ruling content (.ok (.written file bytes)) left →
      Utf8.Valid left ∧ left.length = content.length - (e.stop - e.start) + e.fresh.length) ∧
    (∀ seen text, (after e.file e.start e.stop e.fresh seen).expected.Holds text ↔
      if seen.length ≤ 1024 then text = seen else blockHash text = blockHash seen) ∧
    ((∀ file bytes, (e.run t).map Prod.fst ≠ .ok (.written file bytes)) →
      treeAfter t (e.run t) = t) := by
  obtain ⟨left, hleft, hruling⟩ := exists_ruling_run ht hread
  refine ⟨fun answer left' => ⟨?_, fun h => ?_⟩, ?_, ?_, fun hno => ?_⟩
  · rintro ⟨rfl, hleft'⟩
    rw [hleft] at hleft'
    cases hleft'
    exact hruling
  · obtain ⟨rfl, rfl⟩ := hruling.unique h
    exact ⟨rfl, hleft⟩
  · intro file bytes left' h
    cases h with
    | written hin hvalid hnone =>
      obtain ⟨hstart, hstop⟩ := (cutsNone_iff hvalid).mp hnone
      have hlen := length_splice e.fresh hin.1 hin.2
      refine ⟨hvalid.splice hstart hstop hfresh, ?_⟩
      have hle := hin.1
      have hin' := hin.2
      simp only [splice] at hlen
      omega
  · intro seen text
    exact holds_after_iff
  · refine treeAfter_run fun file bytes tree hrun => hno file bytes ?_
    rw [hrun]
    rfl

/-- A file with a character of two bytes in the middle. -/
def wordTree : FileTree := { entries := [(⟨["word"]⟩, .file (Utf8.bytes "aéz") 0o644)] }

/-- From an offset up to the end of that character, an edit that expects the character. -/
def wordEdit (start : Nat) : Edit :=
  .after ⟨"/word"⟩ start 3 (Utf8.bytes "ö") (Utf8.bytes "é")

theorem an_edit_of_the_word_cuts_no_character :
    wordTree.Closed ∧ wordTree.read ⟨"/word"⟩ = .ok (Utf8.bytes "aéz") ∧
    (((wordEdit 1).run wordTree).map Prod.fst = .ok (.written ⟨"/word"⟩ 2) ∧
      (treeAfter wordTree ((wordEdit 1).run wordTree)).read ⟨"/word"⟩ =
        .ok (Utf8.bytes "aöz")) ∧
    ((wordEdit 2).run wordTree).map Prod.fst = .error (.badSpan 2 3 4) ∧
      (treeAfter wordTree ((wordEdit 2).run wordTree)).read ⟨"/word"⟩ =
        .ok (Utf8.bytes "aéz") := by
  have hclosed : wordTree.Closed := by
    intro x hx
    rw [List.mem_singleton.mp hx]
    exact ⟨_, rfl⟩
  have hread : wordTree.read ⟨"/word"⟩ = .ok (Utf8.bytes "aéz") := by cbv
  have hvalid : Utf8.Valid (Utf8.bytes "aéz") := ⟨_, rfl⟩
  have hfresh : Utf8.Valid (Utf8.bytes "ö") := ⟨_, rfl⟩
  obtain ⟨hwhole, _⟩ := an_edit_follows_its_ruling wordTree hclosed (wordEdit 1) hfresh _ hread
  obtain ⟨hcut, _⟩ := an_edit_follows_its_ruling wordTree hclosed (wordEdit 2) hfresh _ hread
  refine ⟨hclosed, hread, (hwhole _ _).mpr ?_, (hcut _ _).mpr ?_⟩
  · exact .written (by decide) hvalid ((cutsNone_iff hvalid).mpr (by decide)) (by decide)
      (by decide)
  · refine .cutCharacter (by decide) hvalid fun hnone => ?_
    have hboundary := ((cutsNone_iff hvalid).mp hnone).1
    exact absurd hboundary (by decide)

end Edit

end AnchoredBlocks
