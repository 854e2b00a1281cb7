-- A block and the text around it. A block is found between two texts just as it
-- is found alone, unless an earlier anchor comes up. So what is found depends on
-- nothing outside the block but earlier anchors.
import AnchoredBlocks.Proofs.BlockPlace

namespace AnchoredBlocks.Markers

variable {m : Markers} {text front block back : Bytes} {span : Span} {a : Nat}

/-! ## Places in a surrounded block -/

/-- No anchor begins before the offset. -/
def NoAnchorBefore (m : Markers) (text : Bytes) (offset : Nat) : Prop :=
  ∀ i ∈ m.anchorPlaces text, offset ≤ i

theorem noAnchorBefore_iff {offset : Nat} : m.NoAnchorBefore text offset ↔
    ∀ i < offset, ¬ OccursAt (Utf8.bytes m.anchor) text i := by
  constructor
  · intro h i hlt hi
    exact Nat.not_le_of_lt hlt (h i hi)
  · intro h i hi
    by_contra hlt
    exact h i (Nat.lt_of_not_le hlt) hi

instance (m : Markers) (text : Bytes) (offset : Nat) : Decidable (m.NoAnchorBefore text offset) :=
  decidable_of_iff _ noAnchorBefore_iff.symm

theorem mem_anchorPlaces_between (front back : Bytes) {i : Nat}
    (h : i + (Utf8.bytes m.anchor).length ≤ block.length) :
    front.length + i ∈ m.anchorPlaces (front ++ block ++ back) ↔ i ∈ m.anchorPlaces block :=
  occursAt_between front back h

theorem mem_startPlaces_between (front back : Bytes) {s : Nat} (ha : a ≤ block.length) :
    front.length + s ∈ m.startPlaces (front ++ block ++ back) (front.length + a) ↔
      s ∈ m.startPlaces block a := by
  constructor
  · rintro ⟨hs, hle⟩
    exact ⟨(occursAt_between front back (by omega)).mp hs, by omega⟩
  · rintro ⟨hs, hle⟩
    exact ⟨(occursAt_between front back (by omega)).mpr hs, by omega⟩

theorem mem_stopPlaces_between (front back : Bytes) {e : Nat}
    (h : e + (Utf8.bytes m.stop).length ≤ block.length) :
    front.length + e ∈ m.stopPlaces (front ++ block ++ back) (front.length + a) ↔
      e ∈ m.stopPlaces block a := by
  constructor
  · rintro ⟨he, hle⟩
    exact ⟨(occursAt_between front back h).mp he, by omega⟩
  · rintro ⟨he, hle⟩
    exact ⟨(occursAt_between front back h).mpr he, by omega⟩

/-- More text behind brings up no anchor that begins so early that it would end inside. -/
theorem NoAnchorBefore.append {offset : Nat} (h : m.NoAnchorBefore text offset)
    (hlen : offset + (Utf8.bytes m.anchor).length ≤ text.length) (back : Bytes) :
    m.NoAnchorBefore (text ++ back) offset := by
  intro i hi
  by_contra hlt
  have hmem : 0 + i ∈ m.anchorPlaces ([] ++ text ++ back) := by simpa using hi
  exact hlt (h i ((mem_anchorPlaces_between [] back (by omega)).mp hmem))

/-! ## The search in a surrounded block -/

theorem find_eq_ok_mk_iff {start stop a : Nat} : m.find text = .ok ⟨start, stop, a⟩ ↔
    m.Filled ∧ IsLeast (m.anchorPlaces text) a ∧ IsGreatest (m.startPlaces text a) start ∧
      ∃ e, IsLeast (m.stopPlaces text a) e ∧ stop = e + (Utf8.bytes m.stop).length :=
  find_eq_ok_iff

/-- What is found between two texts is a block by itself. -/
theorem find_of_find_between (front back : Bytes) (h : m.find (front ++ block ++ back) =
    .ok ⟨front.length, front.length + block.length, front.length + a⟩) :
    m.find block = .ok ⟨0, block.length, a⟩ := by
  obtain ⟨hf, ha, hs, e', he, hend⟩ := find_eq_ok_mk_iff.mp h
  have hstart := hs.1.2
  have hstop := he.1.2
  obtain ⟨e, rfl⟩ : ∃ e, e' = front.length + e := Nat.exists_eq_add_of_le (by omega)
  apply find_eq_ok_mk_iff.mpr
  refine ⟨hf, ⟨?_, ?_⟩, ⟨?_, ?_⟩, e, ⟨?_, ?_⟩, by omega⟩
  · exact (mem_anchorPlaces_between front back (by omega)).mp ha.1
  · intro i hi
    have := ha.2 ((mem_anchorPlaces_between front back (stop_le_of_mem_anchorPlaces hi)).mpr hi)
    omega
  · exact (mem_startPlaces_between front back (by omega)).mp hs.1
  · intro s hs'
    have := hs.2 ((mem_startPlaces_between front back (by omega)).mpr hs')
    omega
  · exact (mem_stopPlaces_between front back (by omega)).mp he.1
  · intro i hi
    have := he.2 ((mem_stopPlaces_between front back hi.1.stop_le).mpr hi)
    omega

/-- A block by itself is found between any two texts, unless an anchor begins before it. An
anchor or a marker that reaches over an edge of the block comes too early or too late to be
taken. -/
theorem find_between (h : m.find block = .ok ⟨0, block.length, a⟩)
    (hfirst : m.NoAnchorBefore (front ++ block ++ back) front.length) :
    m.find (front ++ block ++ back) =
      .ok ⟨front.length, front.length + block.length, front.length + a⟩ := by
  obtain ⟨hf, ha, hs, e, he, hend⟩ := find_eq_ok_mk_iff.mp h
  have hstart := hs.1.2
  have hstop := he.1.2
  apply find_eq_ok_mk_iff.mpr
  refine ⟨hf, ⟨?_, ?_⟩, ⟨?_, ?_⟩, front.length + e, ⟨?_, ?_⟩, by omega⟩
  · exact (mem_anchorPlaces_between front back (by omega)).mpr ha.1
  · intro j hj
    obtain ⟨i, rfl⟩ := Nat.exists_eq_add_of_le (hfirst j hj)
    by_contra hlt
    have := ha.2 ((mem_anchorPlaces_between front back (by omega)).mp hj)
    omega
  · exact (mem_startPlaces_between front back (by omega)).mpr hs.1
  · intro j hj
    by_contra hlt
    obtain ⟨s, rfl⟩ := Nat.exists_eq_add_of_le (Nat.le_of_not_le hlt)
    have := hs.2 ((mem_startPlaces_between front back (by omega)).mp hj)
    omega
  · exact (mem_stopPlaces_between front back (by omega)).mpr he.1
  · intro j hj
    have hafter := hj.2
    obtain ⟨i, rfl⟩ : ∃ i, j = front.length + i := Nat.exists_eq_add_of_le (by omega)
    by_contra hlt
    have := he.2 ((mem_stopPlaces_between front back (by omega)).mp hj)
    omega

/-- A text is its block with what stands before and after it. -/
theorem find_split (h : m.find text = .ok span) :
    text.take span.start ++ span.block text ++ text.drop span.stop = text ∧
      (text.take span.start).length = span.start ∧
      span.start + (span.block text).length = span.stop := by
  obtain ⟨hstart, hstop, hlen⟩ := find_bounds h
  have hle : span.start ≤ span.stop := by omega
  refine ⟨splice_slice hle, List.length_take_of_le (by omega), ?_⟩
  rw [Span.block, length_slice hlen]
  omega

theorem find_noAnchorBefore (h : m.find text = .ok span) : m.NoAnchorBefore text span.start := by
  intro i hi
  have := (find_eq_ok_iff.mp h).2.1.2 hi
  have := find_bounds h
  omega

/-- A block that was found is a block by itself. -/
theorem find_block (h : m.find text = .ok span) : m.find (span.block text) =
    .ok ⟨0, (span.block text).length, span.anchor - span.start⟩ := by
  obtain ⟨hsplit, hfront, hback⟩ := find_split h
  have hanchor : span.start + (span.anchor - span.start) = span.anchor := by
    have := find_bounds h
    omega
  apply find_of_find_between (text.take span.start) (text.drop span.stop)
  rw [hsplit, hfront, hback, hanchor, h]

theorem extract_of_find (h : m.find text = .ok span) : m.extract text = .ok (span.block text) := by
  rw [extract, h]
  rfl

/-- A block by itself is all that is extracted. -/
theorem extract_of_find_block (h : m.find block = .ok ⟨0, block.length, a⟩) :
    m.extract block = .ok block := by
  rw [extract_of_find h]
  exact congrArg Except.ok (slice_zero_length block)

theorem extract_between (h : m.find (front ++ block ++ back) =
    .ok ⟨front.length, front.length + block.length, a⟩) :
    m.extract (front ++ block ++ back) = .ok block := by
  rw [extract_of_find h]
  exact congrArg Except.ok (slice_between front block back)

/-! ## The law -/

/-- A block that is found is found again between any two texts in which no anchor begins
before it, whatever markers or parts of markers stand there. So a block is all that is
extracted from it, and more text behind changes nothing. -/
theorem a_block_is_found_in_any_surroundings (h : m.find text = .ok span) :
    (∀ front back, m.NoAnchorBefore (front ++ span.block text ++ back) front.length →
      m.find (front ++ span.block text ++ back) =
        .ok ⟨front.length, front.length + (span.block text).length,
          front.length + (span.anchor - span.start)⟩) ∧
    m.extract text = .ok (span.block text) ∧
    m.extract (span.block text) = .ok (span.block text) ∧
    ∀ back, m.find (text ++ back) = .ok span := by
  obtain ⟨hsplit, hfront, hstop⟩ := find_split h
  obtain ⟨hbefore, hbehind, _⟩ := find_bounds h
  have hanchor : span.start + (span.anchor - span.start) = span.anchor := by omega
  refine ⟨?_, extract_of_find h, extract_of_find_block (find_block h), ?_⟩
  · intro front back hfirst
    exact find_between (find_block h) hfirst
  intro back
  have htext : text ++ back =
      text.take span.start ++ span.block text ++ (text.drop span.stop ++ back) := by
    rw [← List.append_assoc, hsplit]
  have hfirst : m.NoAnchorBefore
      (text.take span.start ++ span.block text ++ (text.drop span.stop ++ back))
      (text.take span.start).length := by
    rw [← htext, hfront]
    exact (find_noAnchorBefore h).append (by omega) back
  have hfound := find_between (find_block h) hfirst
  rwa [← htext, hfront, hstop, hanchor] at hfound

/-- Both markers share a letter with the anchor. -/
def keyMarkers : Markers := ⟨"key", "<k", "k>"⟩

/-- The block stands between halves of markers, with an end marker before it. -/
theorem a_block_is_found_between_halves_of_markers :
    keyMarkers.find (Utf8.bytes "<k key k> k>") = .ok ⟨0, 9, 3⟩ ∧
    keyMarkers.NoAnchorBefore
      (Utf8.bytes "k> <k <" ++ Utf8.bytes "<k key k>" ++ Utf8.bytes "> k") 7 ∧
    keyMarkers.find (Utf8.bytes "k> <k <" ++ Utf8.bytes "<k key k>" ++ Utf8.bytes "> k") =
      .ok ⟨7, 16, 10⟩ := by
  have hfound : keyMarkers.find (Utf8.bytes "<k key k> k>") = .ok ⟨0, 9, 3⟩ := by decide
  have hfirst : keyMarkers.NoAnchorBefore
      (Utf8.bytes "k> <k <" ++ Utf8.bytes "<k key k>" ++ Utf8.bytes "> k") 7 := by decide
  exact ⟨hfound, hfirst, (a_block_is_found_in_any_surroundings hfound).1
    (Utf8.bytes "k> <k <") (Utf8.bytes "> k") hfirst⟩

end AnchoredBlocks.Markers
