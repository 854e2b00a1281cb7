-- The laws of the searches. The first place of a text is the least offset at
-- which it stands, the last place is the greatest one, and the count is the
-- number of these offsets. A cut of the text, or more text around it, keeps the
-- places that lie wholly inside.
import Mathlib.Data.Set.Card
import Mathlib.Order.Bounds.Basic
import AnchoredBlocks.ByteText

namespace AnchoredBlocks

variable {needle text : Bytes}

/-! ## A text at an offset -/

theorem OccursAt.stop_le {i : Nat} (h : OccursAt needle text i) :
    i + needle.length ≤ text.length := by
  have hle := h.2.length_le
  rw [List.length_drop] at hle
  have := h.1
  omega

theorem occursAt_nil {i : Nat} : OccursAt needle [] i ↔ i = 0 ∧ needle = [] := by
  simp [OccursAt]

theorem occursAt_cons_zero {b : UInt8} :
    OccursAt needle (b :: text) 0 ↔ needle <+: b :: text := by
  simp [OccursAt]

theorem occursAt_cons_succ {b : UInt8} {i : Nat} :
    OccursAt needle (b :: text) (i + 1) ↔ OccursAt needle text i := by
  simp [OccursAt]

/-- A place in a text without its first `k` bytes. -/
theorem occursAt_drop {k i : Nat} (hk : k ≤ text.length) :
    OccursAt needle (text.drop k) i ↔ OccursAt needle text (k + i) := by
  unfold OccursAt
  rw [List.drop_drop, List.length_drop]
  constructor <;> rintro ⟨h, hp⟩ <;> exact ⟨by omega, hp⟩

/-- A place in the first `k` bytes of a text. -/
theorem occursAt_take {k i : Nat} (hk : k ≤ text.length) :
    OccursAt needle (text.take k) i ↔ OccursAt needle text i ∧ i + needle.length ≤ k := by
  constructor
  · intro h
    have hlen := h.stop_le
    rw [List.length_take_of_le hk] at hlen
    refine ⟨⟨by omega, ?_⟩, hlen⟩
    have hp := h.2
    rw [List.drop_take] at hp
    exact hp.trans (List.take_prefix _ _)
  · rintro ⟨h, hlen⟩
    refine ⟨by rw [List.length_take_of_le hk]; omega, ?_⟩
    rw [List.drop_take]
    exact List.prefix_take_iff.mpr ⟨h.2, by omega⟩

/-- A place wholly inside the middle one of three texts. -/
theorem occursAt_between (front back : Bytes) {middle : Bytes} {i : Nat}
    (h : i + needle.length ≤ middle.length) :
    OccursAt needle (front ++ middle ++ back) (front.length + i) ↔ OccursAt needle middle i := by
  have hlen : (front ++ middle).length ≤ (front ++ middle ++ back).length := by simp
  have hfront : front.length ≤ (front ++ middle).length := by simp
  have hend : front.length + i + needle.length ≤ (front ++ middle).length := by
    rw [List.length_append]
    omega
  calc OccursAt needle (front ++ middle ++ back) (front.length + i)
      ↔ OccursAt needle ((front ++ middle ++ back).take (front ++ middle).length)
          (front.length + i) := by rw [occursAt_take hlen, and_iff_left hend]
    _ ↔ OccursAt needle ((front ++ middle).drop front.length) i := by
          rw [List.take_left, occursAt_drop hfront]
    _ ↔ OccursAt needle middle i := by rw [List.drop_left]

/-- Up to the end of a place, the text is what stands before it and the text found there. -/
theorem OccursAt.take_stop {i : Nat} (h : OccursAt needle text i) :
    text.take (i + needle.length) = text.take i ++ needle := by
  rw [List.take_add, List.prefix_iff_eq_take.mp h.2, List.length_take, Nat.min_eq_left]
  exact h.2.length_le

/-! ## The first place -/

theorem firstFrom_add (k i : Nat) (text : Bytes) :
    firstFrom needle (k + i) text = (firstFrom needle i text).map (k + ·) := by
  induction text generalizing i with
  | nil =>
    unfold firstFrom
    split <;> rfl
  | cons b rest ih =>
    unfold firstFrom
    split
    · rfl
    · exact ih (i + 1)

theorem first?_cons (b : UInt8) (text : Bytes) :
    first? needle (b :: text) =
      if needle <+: b :: text then some 0 else (first? needle text).map (1 + ·) := by
  unfold first?
  rw [firstFrom, ← firstFrom_add]
  simp only [List.isPrefixOf_iff_prefix]

/-- The first place is the least offset at which the text stands. -/
theorem first?_eq_some_iff {i : Nat} :
    first? needle text = some i ↔ IsLeast {j | OccursAt needle text j} i := by
  induction text generalizing i with
  | nil =>
    by_cases hn : needle = []
    · simp [first?, firstFrom, hn, IsLeast, lowerBounds, occursAt_nil, eq_comm]
    · simp [first?, firstFrom, hn, IsLeast, occursAt_nil]
  | cons b text ih =>
    rw [first?_cons]
    split
    · rename_i hp
      have h0 : OccursAt needle (b :: text) 0 := occursAt_cons_zero.mpr hp
      constructor
      · intro h
        cases h
        exact ⟨h0, fun j _ => Nat.zero_le j⟩
      · rintro ⟨_, hleast⟩
        rw [Nat.le_zero.mp (hleast h0)]
    · rename_i hp
      have h0 : ¬ OccursAt needle (b :: text) 0 := fun h => hp (occursAt_cons_zero.mp h)
      rw [Option.map_eq_some_iff]
      constructor
      · rintro ⟨j, hj, rfl⟩
        obtain ⟨hocc, hleast⟩ := ih.mp hj
        rw [Nat.add_comm]
        refine ⟨occursAt_cons_succ.mpr hocc, fun k hk => ?_⟩
        rcases k with _ | k
        · exact absurd hk h0
        · exact Nat.succ_le_succ (hleast (occursAt_cons_succ.mp hk))
      · rintro ⟨hocc, hleast⟩
        rcases i with _ | i
        · exact absurd hocc h0
        · refine ⟨i, ih.mpr ⟨occursAt_cons_succ.mp hocc, fun k hk => ?_⟩, Nat.add_comm 1 i⟩
          exact Nat.le_of_succ_le_succ (hleast (occursAt_cons_succ.mpr hk))

theorem first?_eq_none_iff : first? needle text = none ↔ ∀ i, ¬ OccursAt needle text i := by
  induction text with
  | nil => by_cases hn : needle = [] <;> simp [first?, firstFrom, hn, occursAt_nil]
  | cons b text ih =>
    rw [first?_cons]
    split
    · rename_i hp
      constructor
      · intro h
        cases h
      · intro h
        exact absurd (occursAt_cons_zero.mpr hp) (h 0)
    · rename_i hp
      rw [Option.map_eq_none_iff, ih]
      constructor
      · rintro h (_ | i) hi
        · exact hp (occursAt_cons_zero.mp hi)
        · exact h i (occursAt_cons_succ.mp hi)
      · intro h i hi
        exact h (i + 1) (occursAt_cons_succ.mpr hi)

/-! ## The last place -/

/-- The last place behind the head wins over a place at the head and over one found before. -/
theorem lastFrom_eq (needle : Bytes) (i : Nat) (found : Option Nat) (text : Bytes) :
    lastFrom needle i found text = ((last? needle text).map (i + ·)).or found := by
  induction text generalizing i found with
  | nil =>
    unfold last? lastFrom
    split <;> rfl
  | cons b rest ih =>
    unfold last? lastFrom
    rw [ih (i + 1), ih (0 + 1)]
    cases last? needle rest <;> split <;> simp <;> omega

theorem last?_cons (b : UInt8) (text : Bytes) :
    last? needle (b :: text) =
      ((last? needle text).map (1 + ·)).or (if needle <+: b :: text then some 0 else none) := by
  rw [last?, lastFrom, lastFrom_eq]
  simp only [List.isPrefixOf_iff_prefix, Nat.zero_add]

theorem last?_eq_none_iff : last? needle text = none ↔ ∀ i, ¬ OccursAt needle text i := by
  induction text with
  | nil => by_cases hn : needle = [] <;> simp [last?, lastFrom, hn, occursAt_nil]
  | cons b text ih =>
    rw [last?_cons, Option.or_eq_none_iff, Option.map_eq_none_iff, ih]
    constructor
    · rintro ⟨h, hp⟩ (_ | i) hi
      · rw [if_pos (occursAt_cons_zero.mp hi)] at hp
        cases hp
      · exact h i (occursAt_cons_succ.mp hi)
    · intro h
      refine ⟨fun i hi => h (i + 1) (occursAt_cons_succ.mpr hi), ?_⟩
      rw [if_neg (fun hp => h 0 (occursAt_cons_zero.mpr hp))]

/-- The last place is the greatest offset at which the text stands. -/
theorem last?_eq_some_iff {i : Nat} :
    last? needle text = some i ↔ IsGreatest {j | OccursAt needle text j} i := by
  induction text generalizing i with
  | nil =>
    by_cases hn : needle = []
    · simp [last?, lastFrom, hn, IsGreatest, upperBounds, occursAt_nil, eq_comm]
    · simp [last?, lastFrom, hn, IsGreatest, occursAt_nil]
  | cons b text ih =>
    rw [last?_cons]
    cases hl : last? needle text with
    | some k =>
      obtain ⟨hocc, hgreatest⟩ := ih.mp hl
      have hk : IsGreatest {j | OccursAt needle (b :: text) j} (1 + k) := by
        rw [Nat.add_comm]
        refine ⟨occursAt_cons_succ.mpr hocc, fun j hj => ?_⟩
        rcases j with _ | j
        · exact Nat.zero_le _
        · exact Nat.succ_le_succ (hgreatest (occursAt_cons_succ.mp hj))
      constructor
      · intro h
        cases h
        exact hk
      · intro h
        rw [Option.map_some, Option.some_or, hk.unique h]
    | none =>
      have hnone := last?_eq_none_iff.mp hl
      rw [Option.map_none, Option.none_or]
      constructor
      · intro h
        split at h
        · rename_i hp
          cases h
          refine ⟨occursAt_cons_zero.mpr hp, fun j hj => ?_⟩
          rcases j with _ | j
          · exact Nat.le_refl 0
          · exact absurd (occursAt_cons_succ.mp hj) (hnone j)
        · cases h
      · rintro ⟨hocc, _⟩
        rcases i with _ | i
        · rw [if_pos (occursAt_cons_zero.mp hocc)]
        · exact absurd (occursAt_cons_succ.mp hocc) (hnone i)

/-! ## The count -/

theorem countFrom_eq (needle : Bytes) (n : Nat) (text : Bytes) :
    countFrom needle n text = n + occurrences needle text := by
  induction text generalizing n with
  | nil =>
    unfold occurrences countFrom
    split <;> simp
  | cons b rest ih =>
    rw [occurrences, countFrom, countFrom]
    split
    · rw [ih, ih (0 + 1)]
      omega
    · rw [ih, ih 0]
      omega

theorem occurrences_cons (b : UInt8) (text : Bytes) : occurrences needle (b :: text) =
    (if needle <+: b :: text then 1 else 0) + occurrences needle text := by
  rw [occurrences, countFrom, countFrom_eq]
  simp only [List.isPrefixOf_iff_prefix, Nat.zero_add]

/-- What stands in front and holds no place is not counted. -/
theorem occurrences_append {front : Bytes} (back : Bytes)
    (h : ∀ i < front.length, ¬ OccursAt needle (front ++ back) i) :
    occurrences needle (front ++ back) = occurrences needle back := by
  induction front with
  | nil => rfl
  | cons b front ih =>
    have hhead : ¬ needle <+: b :: (front ++ back) := fun hp =>
      h 0 (Nat.zero_lt_succ _) (occursAt_cons_zero.mpr hp)
    rw [List.cons_append, occurrences_cons, if_neg hhead, Nat.zero_add]
    apply ih
    intro i hi hocc
    exact h (i + 1) (Nat.succ_lt_succ hi) (occursAt_cons_succ.mpr hocc)

/-- The places behind the head are those of the rest, one further. -/
theorem setOf_occursAt_cons (b : UInt8) :
    {i | OccursAt needle (b :: text) i} =
      (if needle <+: b :: text then {0} else ∅) ∪ Nat.succ '' {i | OccursAt needle text i} := by
  ext i
  rcases i with _ | i
  · by_cases hp : needle <+: b :: text <;> simp [occursAt_cons_zero, hp]
  · by_cases hp : needle <+: b :: text <;> simp [occursAt_cons_succ, hp]

theorem finite_setOf_occursAt : {i | OccursAt needle text i}.Finite :=
  (Set.finite_le_nat text.length).subset fun _ h => h.1

/-- The count is the number of offsets at which the text stands. -/
theorem occurrences_eq_ncard (needle text : Bytes) :
    occurrences needle text = {i | OccursAt needle text i}.ncard := by
  induction text with
  | nil =>
    by_cases hn : needle = [] <;> simp [occurrences, countFrom, hn, occursAt_nil]
  | cons b text ih =>
    have hhead : Disjoint (if needle <+: b :: text then ({0} : Set Nat) else ∅)
        (Nat.succ '' {i | OccursAt needle text i}) := by
      split <;> simp [Set.disjoint_left]
    have hfinite : (if needle <+: b :: text then ({0} : Set Nat) else ∅).Finite := by
      split <;> simp
    rw [setOf_occursAt_cons, Set.ncard_union_eq hhead hfinite (finite_setOf_occursAt.image _),
      Set.ncard_image_of_injective _ Nat.succ_injective, ← ih, occurrences_cons]
    split <;> simp

theorem occurrences_eq_one_iff :
    occurrences needle text = 1 ↔ ∃! i, OccursAt needle text i := by
  rw [occurrences_eq_ncard, Set.ncard_eq_one]
  simp only [Set.eq_singleton_iff_unique_mem]
  rfl

theorem occurrences_eq_zero_iff :
    occurrences needle text = 0 ↔ ∀ i, ¬ OccursAt needle text i := by
  rw [occurrences_eq_ncard, Set.ncard_eq_zero finite_setOf_occursAt,
    Set.eq_empty_iff_forall_notMem]
  rfl

end AnchoredBlocks
