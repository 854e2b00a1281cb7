-- The search with all its cuts checked. It is the plain search, but an offset
-- that cuts a character or lies past the end would stop it. On texts nothing
-- ever stops it, so no block and no replacement leaves half a character behind.
import AnchoredBlocks.Proofs.CheckedCuts
import AnchoredBlocks.Proofs.EditRulings

namespace AnchoredBlocks

open Cut

/-! ## The checked search -/

namespace Span

/-- The block within its text. -/
def checkedBlock (s : Span) (text : Bytes) : Option Bytes := between? text s.start s.stop

/-- The room for a text with another block in place of this one. -/
def checkedRoom (s : Span) (text fresh : Bytes) : Option Nat := do
  let length ← minus? s.stop s.start
  let rest ← minus? text.length length
  return rest + fresh.length

/-- The text with another block in place of this one. -/
def checkedReplace (s : Span) (text fresh : Bytes) : Option Bytes := do
  let _ ← s.checkedRoom text fresh
  let front ← before? text s.start
  let back ← after? text s.stop
  return front ++ fresh ++ back

end Span

/-- The line of an offset. -/
def checkedLine (text : Bytes) (offset : Nat) : Option Nat := do
  let above ← before? text (min offset text.length)
  return newlines above + 1

namespace Markers

variable {m : Markers} {text fresh : Bytes} {span : Span}

/-- The block around the first anchor. The start marker is searched in the text before the
anchor, the end marker in the text behind it. -/
def checkedFind (m : Markers) (text : Bytes) : Option (Except SearchFailure Span) :=
  match m.emptyPattern? with
  | some pattern => some (.error (.emptyPattern pattern))
  | none =>
    match first? (Utf8.bytes m.anchor) text with
    | none => some (.error (.noAnchor m.anchor))
    | some anchor => do
      let front ← before? text anchor
      match last? (Utf8.bytes m.start) front with
      | none => return .error (.noStart m.start (← checkedLine text anchor))
      | some start =>
        let behind := anchor + (Utf8.bytes m.anchor).length
        let back ← after? text behind
        match first? (Utf8.bytes m.stop) back with
        | none => return .error (.noEnd m.stop (← checkedLine text anchor))
        | some offset =>
          return .ok ⟨start, behind + offset + (Utf8.bytes m.stop).length, anchor⟩

/-- The block around the only anchor. The anchors are counted from hit to hit. -/
def checkedFindOnly (m : Markers) (text : Bytes) : Option (Except SearchFailure Span) :=
  match m.emptyPattern? with
  | some pattern => some (.error (.emptyPattern pattern))
  | none => do
    let count ← countHits? (Utf8.bytes m.anchor) text 0 0
    if count > 1 then return .error (.manyAnchors m.anchor count) else m.checkedFind text

/-- The bytes of the block, markers included. -/
def checkedExtract (m : Markers) (text : Bytes) : Option (Except SearchFailure Bytes) := do
  match ← m.checkedFind text with
  | .error failure => return .error failure
  | .ok span => return .ok (← span.checkedBlock text)

/-- The text with `fresh` in place of the block. -/
def checkedReplace (m : Markers) (text fresh : Bytes) : Option (Except SearchFailure Bytes) := do
  match ← m.checkedFind text with
  | .error failure => return .error failure
  | .ok span => return .ok (← span.checkedReplace text fresh)

end Markers

/-! ## No cut is refused -/

namespace Cut

variable {text : Bytes} {i j : Nat}

theorem before?_eq (h : Utf8.isBoundary text i = true) : before? text i = some (text.take i) :=
  if_pos h

theorem after?_eq (h : Utf8.isBoundary text i = true) : after? text i = some (text.drop i) :=
  if_pos h

theorem checkedLine_eq (h : Utf8.isBoundary text i = true) :
    checkedLine text i = some (lineOf text i) := by
  unfold checkedLine
  rw [Nat.min_eq_left (Utf8.le_of_isBoundary h), before?_eq h]
  rfl

end Cut

namespace Span

variable {s : Span} {text fresh : Bytes}

theorem checkedBlock_eq (h : s.Fits text) : s.checkedBlock text = some (s.block text) := if_pos h

theorem length_le (h : s.Fits text) : s.length ≤ text.length := by
  have := Utf8.le_of_isBoundary h.2.2
  unfold length
  omega

theorem length_replace (h : s.Fits text) (fresh : Bytes) :
    (s.replace text fresh).length = text.length - s.length + fresh.length := by
  have hsplice := length_splice fresh h.1 (Utf8.le_of_isBoundary h.2.2)
  have := length_le h
  unfold replace
  unfold length at this ⊢
  omega

theorem checkedRoom_eq (h : s.Fits text) (fresh : Bytes) :
    s.checkedRoom text fresh = some (s.replace text fresh).length := by
  have hlength : minus? s.stop s.start = some s.length := if_pos h.1
  have hrest : minus? text.length s.length = some (text.length - s.length) := if_pos (length_le h)
  unfold checkedRoom
  rw [hlength, length_replace h]
  simp only [Option.bind_eq_bind, Option.bind_some, hrest]
  rfl

theorem checkedReplace_eq (h : s.Fits text) (fresh : Bytes) :
    s.checkedReplace text fresh = some (s.replace text fresh) := by
  unfold checkedReplace
  rw [checkedRoom_eq h, before?_eq h.2.1, after?_eq h.2.2]
  rfl

end Span

namespace Markers

variable {m : Markers} {text fresh : Bytes} {span : Span} {a : Nat}

/-- The first anchor of a text stands between two characters of it. -/
theorem isBoundary_anchorAt? (hvalid : Utf8.Valid text) (hf : m.Filled)
    (h : m.anchorAt? text = some a) : Utf8.isBoundary text a = true ∧
      Utf8.isBoundary text (a + (Utf8.bytes m.anchor).length) = true := by
  obtain ⟨cs, rfl⟩ := hvalid
  exact Utf8.isBoundary_of_occursAt (Utf8.toList_ne_nil hf.1) (anchorAt?_eq_some_iff.mp h).1

theorem checkedFind_eq (hvalid : Utf8.Valid text) : m.checkedFind text = some (m.find text) := by
  unfold checkedFind find
  cases hp : m.emptyPattern? with
  | some pattern => rfl
  | none =>
    have hf := emptyPattern?_eq_none_iff.mp hp
    cases ha : m.anchorAt? text with
    | none =>
      unfold anchorAt? at ha
      simp only [ha]
    | some anchor =>
      obtain ⟨hanchor, hbehind⟩ := isBoundary_anchorAt? hvalid hf ha
      unfold anchorAt? at ha
      unfold startAt? stopAt?
      simp only [ha, before?_eq hanchor, after?_eq hbehind, checkedLine_eq hanchor,
        Option.bind_eq_bind, Option.bind_some]
      cases last? (Utf8.bytes m.start) (text.take anchor) with
      | none => rfl
      | some start =>
        cases first? (Utf8.bytes m.stop)
            (text.drop (anchor + (Utf8.bytes m.anchor).length)) <;> rfl

/-- The count from hit to hit is the number of places. -/
theorem countHits?_anchor (hvalid : Utf8.Valid text) (hf : m.Filled) :
    countHits? (Utf8.bytes m.anchor) text 0 0 =
      some (occurrences (Utf8.bytes m.anchor) text) := by
  obtain ⟨cs, rfl⟩ := hvalid
  obtain ⟨n, ns, hanchor⟩ := List.exists_cons_of_ne_nil (Utf8.toList_ne_nil hf.1)
  have hcount := countHits?_encode n ns cs [] 0
  rwa [← hanchor, Nat.zero_add] at hcount

theorem checkedFindOnly_eq (hvalid : Utf8.Valid text) :
    m.checkedFindOnly text = some (m.findOnly text) := by
  unfold checkedFindOnly findOnly
  cases hp : m.emptyPattern? with
  | some pattern => rfl
  | none =>
    simp only [countHits?_anchor hvalid (emptyPattern?_eq_none_iff.mp hp), checkedFind_eq hvalid,
      Option.bind_eq_bind, Option.bind_some]
    split <;> rfl

theorem checkedExtract_eq (hvalid : Utf8.Valid text) :
    m.checkedExtract text = some (m.extract text) := by
  unfold checkedExtract extract
  rw [checkedFind_eq hvalid]
  cases hfind : m.find text with
  | error failure => rfl
  | ok span =>
    simp only [Option.bind_eq_bind, Option.bind_some, Span.checkedBlock_eq (find_fits hvalid hfind)]
    rfl

theorem checkedReplace_eq (hvalid : Utf8.Valid text) (fresh : Bytes) :
    m.checkedReplace text fresh = some (m.replace text fresh) := by
  unfold checkedReplace replace
  rw [checkedFind_eq hvalid]
  cases hfind : m.find text with
  | error failure => rfl
  | ok span =>
    simp only [Option.bind_eq_bind, Option.bind_some,
      Span.checkedReplace_eq (find_fits hvalid hfind)]
    rfl

/-! ## The laws -/

/-- On texts no cut of a search, of a block or of a replacement is refused, no difference falls
below zero, and every answer is the plain one. A span that is found cuts no character at its
ends and at its anchor. So its block is text, and so is what comes of a replacement, for which
exactly the room is set aside that it takes. The same goes for the block of a plan in the
content that was read. -/
theorem no_cut_is_refused (m : Markers) (text fresh : Bytes) (htext : Utf8.Valid text)
    (hfresh : Utf8.Valid fresh) :
    (m.checkedFind text = some (m.find text) ∧
      m.checkedFindOnly text = some (m.findOnly text) ∧
      m.checkedExtract text = some (m.extract text) ∧
      m.checkedReplace text fresh = some (m.replace text fresh)) ∧
    (∀ span, m.find text = .ok span ∨ m.findOnly text = .ok span →
      (Utf8.BetweenCharacters text span.start ∧ Utf8.BetweenCharacters text span.anchor ∧
        Utf8.BetweenCharacters text span.stop) ∧
      (span.checkedBlock text = some (span.block text) ∧ Utf8.Valid (span.block text)) ∧
      (span.checkedReplace text fresh = some (span.replace text fresh) ∧
        Utf8.Valid (span.replace text fresh)) ∧
      span.checkedRoom text fresh = some (span.replace text fresh).length ∧
      (span.replace text fresh).length = text.length - span.length + fresh.length) ∧
    ∀ (d : Definition) (t : FileTree) (w : Workspace) (p : Plan), d.plan t w = .ok p →
      p.span.checkedBlock p.content = some p.block ∧
        p.span.checkedReplace p.content p.fresh = some (p.span.replace p.content p.fresh) := by
  refine ⟨⟨checkedFind_eq htext, checkedFindOnly_eq htext, checkedExtract_eq htext,
    checkedReplace_eq htext fresh⟩, fun span hfound => ?_, fun d t w p hplan => ?_⟩
  · have hfind : m.find text = .ok span := hfound.elim id find_of_findOnly
    obtain ⟨hf, hanchor, _⟩ := find_eq_ok_iff.mp hfind
    have hfits := find_fits htext hfind
    have hat := isBoundary_anchorAt? htext hf (anchorAt?_eq_some_iff.mpr hanchor)
    have ⟨hle, hstart, hstop⟩ := hfits
    refine ⟨⟨?_, ?_, ?_⟩, ⟨Span.checkedBlock_eq hfits, htext.slice hstart hstop hle⟩,
      ⟨Span.checkedReplace_eq hfits fresh, htext.splice hstart hstop hfresh⟩,
      Span.checkedRoom_eq hfits fresh, Span.length_replace hfits fresh⟩
    · exact (Utf8.betweenCharacters_iff htext).mpr hstart
    · exact (Utf8.betweenCharacters_iff htext).mpr hat.1
    · exact (Utf8.betweenCharacters_iff htext).mpr hstop
  · have hfits := (Definition.plan_facts hplan).2.2.1
    exact ⟨Span.checkedBlock_eq hfits, Span.checkedReplace_eq hfits p.fresh⟩

/-- The anchor begins with a character of three bytes. -/
def wideMarkers : Markers := ⟨"前k", "é<", ">é"⟩

theorem no_cut_of_wide_characters_is_refused :
    wideMarkers.checkedFind (Utf8.bytes "é é<持前k>é") = some (.ok ⟨3, 16, 9⟩) ∧
    wideMarkers.checkedFindOnly (Utf8.bytes "é é<持前k>é") = some (.ok ⟨3, 16, 9⟩) ∧
    wideMarkers.checkedReplace (Utf8.bytes "é é<持前k>é") (Utf8.bytes "新") =
      some (.ok (Utf8.bytes "é 新")) := by
  obtain ⟨⟨hfind, honly, _, hreplace⟩, _⟩ := no_cut_is_refused wideMarkers
    (Utf8.bytes "é é<持前k>é") (Utf8.bytes "新") ⟨_, rfl⟩ ⟨_, rfl⟩
  rw [hfind, honly, hreplace]
  decide

/-- An empty text is hit at the end as well, and the next cut would lie past the end. -/
example : countHits? [] (Utf8.bytes "é") 0 0 = none := by cbv

/-- The count from hit to hit ends, and it is the number of offsets at which the anchor stands,
also where anchors overlap. With more than one of them the search fails with that number,
whatever the markers are. Otherwise it is the search for the first anchor, and an empty text is
the same fault for both. So a block that is found holds the only anchor. -/
theorem every_anchor_is_counted (m : Markers) (text : Bytes) (htext : Utf8.Valid text) :
    (¬ m.Filled → ∃ pattern, m.checkedFindOnly text = some (.error (.emptyPattern pattern)) ∧
      m.find text = .error (.emptyPattern pattern)) ∧
    (m.Filled →
      countHits? (Utf8.bytes m.anchor) text 0 0 = some (m.anchorPlaces text).ncard ∧
      (2 ≤ (m.anchorPlaces text).ncard → m.checkedFindOnly text =
        some (.error (.manyAnchors m.anchor (m.anchorPlaces text).ncard))) ∧
      ((m.anchorPlaces text).ncard ≤ 1 → m.checkedFindOnly text = some (m.find text))) ∧
    m.checkedFindOnly text = some (m.findOnly text) ∧
    ∀ span, m.findOnly text = .ok span → m.anchorPlaces text = {span.anchor} := by
  have hcount : occurrences (Utf8.bytes m.anchor) text = (m.anchorPlaces text).ncard :=
    occurrences_eq_ncard _ _
  rw [checkedFindOnly_eq htext, ← hcount]
  refine ⟨fun hempty => ?_, fun hf => ⟨countHits?_anchor htext hf, fun hmany => ?_,
    fun hone => ?_⟩, rfl, fun span hspan => ?_⟩
  · obtain ⟨pattern, honly, hfind⟩ := findOnly_of_empty hempty
    exact ⟨pattern, congrArg some honly, hfind⟩
  · exact congrArg some (findOnly_of_many hf hmany)
  · exact congrArg some (findOnly_eq_find hone)
  · have hat := (find_eq_ok_iff.mp (find_of_findOnly hspan)).2.1.1
    have hsome : occurrences (Utf8.bytes m.anchor) text ≠ 0 := fun hzero =>
      occurrences_eq_zero_iff.mp hzero _ hat
    have hone : occurrences (Utf8.bytes m.anchor) text = 1 := by
      have := occurrences_of_findOnly hspan
      omega
    obtain ⟨i, _, hunique⟩ := occurrences_eq_one_iff.mp hone
    exact Set.eq_singleton_iff_unique_mem.mpr
      ⟨hat, fun j hj => (hunique j hj).trans (hunique _ hat).symm⟩

/-- Two anchors share a character, and no end marker stands behind them. -/
theorem anchors_that_overlap_are_counted :
    countHits? (Utf8.bytes "éé") (Utf8.bytes "<ééé") 0 0 = some 2 ∧
    (Markers.mk "éé" "<" ">").checkedFindOnly (Utf8.bytes "<ééé") =
      some (.error (.manyAnchors "éé" 2)) := by
  obtain ⟨_, hfilled, _⟩ :=
    every_anchor_is_counted (Markers.mk "éé" "<" ">") (Utf8.bytes "<ééé") ⟨_, rfl⟩
  obtain ⟨hcount, hmany, _⟩ := hfilled ⟨by decide, by decide, by decide⟩
  have htwo : ((Markers.mk "éé" "<" ">").anchorPlaces (Utf8.bytes "<ééé")).ncard = 2 := by
    have hplaces : occurrences (Utf8.bytes "éé") (Utf8.bytes "<ééé") = 2 := by decide
    exact (occurrences_eq_ncard _ _).symm.trans hplaces
  rw [htwo] at hcount hmany
  exact ⟨hcount, hmany (Nat.le_refl 2)⟩

end Markers

end AnchoredBlocks
