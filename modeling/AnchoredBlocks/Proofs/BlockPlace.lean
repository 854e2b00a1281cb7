-- The laws of the block search. The search is held against a rule that names
-- places by their order alone: the least anchor, the greatest start marker
-- before it, the least end marker after it.
import AnchoredBlocks.BlockSearch
import AnchoredBlocks.Proofs.Characters

namespace AnchoredBlocks

namespace Markers

/-! ## The rule -/

/-- None of the three texts is empty. -/
def Filled (m : Markers) : Prop := m.anchor ≠ "" ∧ m.start ≠ "" ∧ m.stop ≠ ""

/-- Where the anchor stands. -/
def anchorPlaces (m : Markers) (text : Bytes) : Set Nat :=
  {i | OccursAt (Utf8.bytes m.anchor) text i}

/-- Where a start marker stands that ends before the offset. -/
def startPlaces (m : Markers) (text : Bytes) (anchor : Nat) : Set Nat :=
  {s | OccursAt (Utf8.bytes m.start) text s ∧ s + (Utf8.bytes m.start).length ≤ anchor}

/-- Where an end marker stands that begins after an anchor at the offset. -/
def stopPlaces (m : Markers) (text : Bytes) (anchor : Nat) : Set Nat :=
  {e | OccursAt (Utf8.bytes m.stop) text e ∧ anchor + (Utf8.bytes m.anchor).length ≤ e}

/-- What a search has to answer. An earlier case is asked before a later one. -/
inductive Rule (m : Markers) (text : Bytes) : Except SearchFailure Span → Prop
  | emptyAnchor : m.anchor = "" → Rule m text (.error (.emptyPattern .anchor))
  | emptyStart : m.anchor ≠ "" → m.start = "" →
      Rule m text (.error (.emptyPattern .startMarker))
  | emptyStop : m.anchor ≠ "" → m.start ≠ "" → m.stop = "" →
      Rule m text (.error (.emptyPattern .endMarker))
  | noAnchor : m.Filled → m.anchorPlaces text = ∅ → Rule m text (.error (.noAnchor m.anchor))
  | noStart {a : Nat} : m.Filled → IsLeast (m.anchorPlaces text) a →
      m.startPlaces text a = ∅ →
      Rule m text (.error (.noStart m.start (1 + (text.take a).count newline)))
  | noStop {a s : Nat} : m.Filled → IsLeast (m.anchorPlaces text) a →
      IsGreatest (m.startPlaces text a) s → m.stopPlaces text a = ∅ →
      Rule m text (.error (.noEnd m.stop (1 + (text.take a).count newline)))
  | found {a s e : Nat} : m.Filled → IsLeast (m.anchorPlaces text) a →
      IsGreatest (m.startPlaces text a) s → IsLeast (m.stopPlaces text a) e →
      Rule m text (.ok ⟨s, e + (Utf8.bytes m.stop).length, a⟩)

variable {m : Markers} {text : Bytes}

/-! ## The three searches -/

theorem emptyPattern?_eq_none_iff : m.emptyPattern? = none ↔ m.Filled := by
  unfold emptyPattern? Filled
  simp only [String.isEmpty_iff]
  split
  · simp [*]
  · split
    · simp [*]
    · split <;> simp [*]

theorem anchorAt?_eq_some_iff {a : Nat} :
    m.anchorAt? text = some a ↔ IsLeast (m.anchorPlaces text) a := first?_eq_some_iff

theorem anchorAt?_eq_none_iff : m.anchorAt? text = none ↔ m.anchorPlaces text = ∅ := by
  rw [Set.eq_empty_iff_forall_notMem]
  exact first?_eq_none_iff

/-- The whole anchor stands in the text, so both cuts at its ends are cuts of the text. -/
theorem stop_le_of_mem_anchorPlaces {a : Nat} (h : a ∈ m.anchorPlaces text) :
    a + (Utf8.bytes m.anchor).length ≤ text.length := OccursAt.stop_le h

theorem startPlaces_eq {a : Nat} (ha : a ≤ text.length) :
    {s | OccursAt (Utf8.bytes m.start) (text.take a) s} = m.startPlaces text a := by
  ext s
  exact occursAt_take ha

theorem startAt?_eq_some_iff {a s : Nat} (ha : a ≤ text.length) :
    m.startAt? text a = some s ↔ IsGreatest (m.startPlaces text a) s := by
  rw [← startPlaces_eq ha]
  exact last?_eq_some_iff

theorem startAt?_eq_none_iff {a : Nat} (ha : a ≤ text.length) :
    m.startAt? text a = none ↔ m.startPlaces text a = ∅ := by
  rw [← startPlaces_eq ha, Set.eq_empty_iff_forall_notMem]
  exact last?_eq_none_iff

/-- The end marker is searched behind the anchor, and its place is told from the head of
the text. -/
theorem stopAt?_eq_some_iff {a e : Nat}
    (ha : a + (Utf8.bytes m.anchor).length ≤ text.length) :
    m.stopAt? text a = some e ↔ IsLeast (m.stopPlaces text a) e := by
  unfold stopAt?
  simp only [Option.map_eq_some_iff, first?_eq_some_iff]
  constructor
  · rintro ⟨i, ⟨hi, hleast⟩, rfl⟩
    refine ⟨⟨(occursAt_drop ha).mp hi, Nat.le_add_right _ _⟩, fun j hj => ?_⟩
    obtain ⟨k, rfl⟩ := Nat.exists_eq_add_of_le hj.2
    exact Nat.add_le_add_left (hleast ((occursAt_drop ha).mpr hj.1)) _
  · rintro ⟨⟨he, hle⟩, hleast⟩
    obtain ⟨i, rfl⟩ := Nat.exists_eq_add_of_le hle
    refine ⟨i, ⟨(occursAt_drop ha).mpr he, fun j hj => ?_⟩, rfl⟩
    exact Nat.le_of_add_le_add_left
      (hleast ⟨(occursAt_drop ha).mp hj, Nat.le_add_right _ _⟩)

theorem stopAt?_eq_none_iff {a : Nat}
    (ha : a + (Utf8.bytes m.anchor).length ≤ text.length) :
    m.stopAt? text a = none ↔ m.stopPlaces text a = ∅ := by
  unfold stopAt?
  simp only [Option.map_eq_none_iff, first?_eq_none_iff, Set.eq_empty_iff_forall_notMem]
  constructor
  · rintro h e ⟨he, hle⟩
    obtain ⟨i, rfl⟩ := Nat.exists_eq_add_of_le hle
    exact h i ((occursAt_drop ha).mpr he)
  · intro h i hi
    exact h _ ⟨(occursAt_drop ha).mp hi, Nat.le_add_right _ _⟩

/-! ## The search and the rule -/

/-- The search answers, and its answer is by the rule. -/
theorem rule_find (m : Markers) (text : Bytes) : m.Rule text (m.find text) := by
  unfold find
  split
  · rename_i pattern hp
    unfold emptyPattern? at hp
    simp only [String.isEmpty_iff] at hp
    split at hp
    · cases hp
      exact .emptyAnchor ‹_›
    · split at hp
      · cases hp
        exact .emptyStart ‹_› ‹_›
      · split at hp
        · cases hp
          exact .emptyStop ‹_› ‹_› ‹_›
        · cases hp
  · rename_i hp
    have hfilled := emptyPattern?_eq_none_iff.mp hp
    split
    · rename_i ha
      exact .noAnchor hfilled (anchorAt?_eq_none_iff.mp ha)
    · rename_i a ha
      have hleast := anchorAt?_eq_some_iff.mp ha
      have hstop := stop_le_of_mem_anchorPlaces hleast.1
      have hline : lineOf text a = 1 + (text.take a).count newline := Nat.add_comm _ _
      split
      · rename_i hs
        rw [hline]
        exact .noStart hfilled hleast ((startAt?_eq_none_iff (by omega)).mp hs)
      · rename_i s hs
        have hgreatest := (startAt?_eq_some_iff (by omega)).mp hs
        split
        · rename_i he
          rw [hline]
          exact .noStop hfilled hleast hgreatest ((stopAt?_eq_none_iff hstop).mp he)
        · rename_i e he
          exact .found hfilled hleast hgreatest ((stopAt?_eq_some_iff hstop).mp he)

/-- No other answer is by the rule. -/
theorem find_of_rule {r : Except SearchFailure Span} (h : m.Rule text r) : m.find text = r := by
  have full : ∀ {a : Nat}, IsLeast (m.anchorPlaces text) a →
      a + (Utf8.bytes m.anchor).length ≤ text.length ∧ a ≤ text.length := fun ha => by
    have := stop_le_of_mem_anchorPlaces ha.1
    omega
  cases h with
  | emptyAnchor ha => simp [find, emptyPattern?, ha]
  | emptyStart ha hs => simp [find, emptyPattern?, ha, hs]
  | emptyStop ha hs he => simp [find, emptyPattern?, ha, hs, he]
  | noAnchor hf ha =>
    rw [find, emptyPattern?_eq_none_iff.mpr hf]
    simp only [anchorAt?_eq_none_iff.mpr ha]
  | noStart hf ha hs =>
    rw [find, emptyPattern?_eq_none_iff.mpr hf]
    simp only [anchorAt?_eq_some_iff.mpr ha, (startAt?_eq_none_iff (full ha).2).mpr hs]
    rw [Nat.add_comm]
    rfl
  | noStop hf ha hs he =>
    rw [find, emptyPattern?_eq_none_iff.mpr hf]
    simp only [anchorAt?_eq_some_iff.mpr ha, (startAt?_eq_some_iff (full ha).2).mpr hs,
      (stopAt?_eq_none_iff (full ha).1).mpr he]
    rw [Nat.add_comm]
    rfl
  | found hf ha hs he =>
    rw [find, emptyPattern?_eq_none_iff.mpr hf]
    simp only [anchorAt?_eq_some_iff.mpr ha, (startAt?_eq_some_iff (full ha).2).mpr hs,
      (stopAt?_eq_some_iff (full ha).1).mpr he]

theorem find_eq_iff {r : Except SearchFailure Span} : m.find text = r ↔ m.Rule text r :=
  ⟨fun h => h ▸ rule_find m text, find_of_rule⟩

/-- A block is found exactly at the places of the rule. -/
theorem find_eq_ok_iff {span : Span} :
    m.find text = .ok span ↔ m.Filled ∧ IsLeast (m.anchorPlaces text) span.anchor ∧
      IsGreatest (m.startPlaces text span.anchor) span.start ∧
      ∃ e, IsLeast (m.stopPlaces text span.anchor) e ∧
        span.stop = e + (Utf8.bytes m.stop).length := by
  rw [find_eq_iff]
  constructor
  · intro h
    cases h with
    | found hf ha hs he => exact ⟨hf, ha, hs, _, he, rfl⟩
  · obtain ⟨start, stop, anchor⟩ := span
    rintro ⟨hf, ha, hs, e, he, rfl⟩
    exact .found hf ha hs he

/-! ## The block that is found -/

/-- The start marker, the anchor and the end marker stand in this order inside the block,
and the block inside the text. -/
theorem find_bounds {span : Span} (h : m.find text = .ok span) :
    span.start + (Utf8.bytes m.start).length ≤ span.anchor ∧
      span.anchor + (Utf8.bytes m.anchor).length + (Utf8.bytes m.stop).length ≤ span.stop ∧
      span.stop ≤ text.length := by
  obtain ⟨_, _, hs, e, he, hstop⟩ := find_eq_ok_iff.mp h
  have := hs.1.2
  have := he.1.2
  have := he.1.1.stop_le
  omega

/-- No range from a start marker before the anchor to an end marker after it is smaller. -/
theorem find_inside {span : Span} (h : m.find text = .ok span) {s e : Nat}
    (hs : s ∈ m.startPlaces text span.anchor) (he : e ∈ m.stopPlaces text span.anchor) :
    s ≤ span.start ∧ span.stop ≤ e + (Utf8.bytes m.stop).length := by
  obtain ⟨_, _, hgreatest, e', hleast, hstop⟩ := find_eq_ok_iff.mp h
  refine ⟨hgreatest.2 hs, ?_⟩
  rw [hstop]
  exact Nat.add_le_add_right (hleast.2 he) _

/-- A block in a valid text cuts no character. -/
theorem find_fits {span : Span} (hvalid : Utf8.Valid text) (h : m.find text = .ok span) :
    span.Fits text := by
  obtain ⟨cs, rfl⟩ := hvalid
  obtain ⟨⟨_, hstart, hstop⟩, _, hs, e, he, hend⟩ := find_eq_ok_iff.mp h
  have hbounds := find_bounds h
  have hfirst := Utf8.isBoundary_of_occursAt (Utf8.toList_ne_nil hstart) hs.1.1
  have hlast := Utf8.isBoundary_of_occursAt (Utf8.toList_ne_nil hstop) he.1.1
  exact ⟨by omega, hfirst.1, hend ▸ hlast.2⟩

/-- A block around the only anchor is the block around the first one. -/
theorem find_of_findOnly {span : Span} (h : m.findOnly text = .ok span) :
    m.find text = .ok span := by
  unfold findOnly at h
  split at h
  · cases h
  · simp only at h
    split at h
    · cases h
    · exact h

/-- With one anchor at most, it makes no difference whether others are looked for. -/
theorem findOnly_eq_find (h : occurrences (Utf8.bytes m.anchor) text ≤ 1) :
    m.findOnly text = m.find text := by
  unfold findOnly
  split
  · rename_i pattern hp
    rw [find, hp]
  · exact if_neg (Nat.not_lt.mpr h)

/-- The block around the only anchor is only found where one anchor stands at most. -/
theorem occurrences_of_findOnly {span : Span} (h : m.findOnly text = .ok span) :
    occurrences (Utf8.bytes m.anchor) text ≤ 1 := by
  unfold findOnly at h
  split at h
  · cases h
  · simp only at h
    split at h
    · cases h
    · rename_i hcount
      exact Nat.le_of_not_lt hcount

theorem findOnly_of_empty (h : ¬ m.Filled) : ∃ pattern,
    m.findOnly text = .error (.emptyPattern pattern) ∧
      m.find text = .error (.emptyPattern pattern) := by
  cases hp : m.emptyPattern? with
  | none => exact absurd (emptyPattern?_eq_none_iff.mp hp) h
  | some pattern =>
    unfold findOnly find
    simp only [hp]
    exact ⟨pattern, rfl, rfl⟩

theorem findOnly_of_many (hf : m.Filled) (h : 2 ≤ occurrences (Utf8.bytes m.anchor) text) :
    m.findOnly text =
      .error (.manyAnchors m.anchor (occurrences (Utf8.bytes m.anchor) text)) := by
  unfold findOnly
  simp only [emptyPattern?_eq_none_iff.mpr hf]
  exact if_pos h

/-! ## The laws -/

/-- The search answers by the rule and in no other way. A block that is found lies around
its anchor, and inside every range from a start marker wholly before the anchor to an end
marker wholly after it. -/
theorem the_search_follows_its_rule (m : Markers) (text : Bytes) :
    (∀ r, m.find text = r ↔ m.Rule text r) ∧
      ∀ span, m.find text = .ok span →
        (span.start + (Utf8.bytes m.start).length ≤ span.anchor ∧
          span.anchor + (Utf8.bytes m.anchor).length + (Utf8.bytes m.stop).length ≤ span.stop ∧
          span.stop ≤ text.length) ∧
        ∀ s ∈ m.startPlaces text span.anchor, ∀ e ∈ m.stopPlaces text span.anchor,
          s ≤ span.start ∧ span.stop ≤ e + (Utf8.bytes m.stop).length :=
  ⟨fun _ => find_eq_iff, fun _ h => ⟨find_bounds h, fun _ hs _ he => find_inside h hs he⟩⟩

end Markers

end AnchoredBlocks
