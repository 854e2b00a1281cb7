-- The laws of line numbers. The number of an offset is told by the newlines around
-- it, so the lines of a block and of its anchor stand in their order, and another
-- block in its place moves the lines behind it by the difference of newlines.
import Mathlib.Order.Monotone.Defs
import AnchoredBlocks.Proofs.Surroundings

namespace AnchoredBlocks

variable {text front back : Bytes} {o n k p : Nat}

/-! ## Newlines before an offset -/

theorem newlines_append (front back : Bytes) :
    newlines (front ++ back) = newlines front + newlines back := List.count_append

theorem newlines_le (h : front.Sublist text) : newlines front ≤ newlines text := h.count_le newline

theorem lineOf_zero (text : Bytes) : lineOf text 0 = 1 := rfl

theorem lineOf_cons_succ (b : UInt8) (text : Bytes) (o : Nat) :
    lineOf (b :: text) (o + 1) = lineOf text o + if b = newline then 1 else 0 := by
  simp only [lineOf, newlines, List.take_succ_cons, List.count_cons, beq_iff_eq]
  omega

theorem lineOf_append_left (back : Bytes) (h : o ≤ front.length) :
    lineOf (front ++ back) o = lineOf front o := by
  unfold lineOf
  rw [List.take_append_of_le_length h]

theorem lineOf_append_right (front back : Bytes) (d : Nat) :
    lineOf (front ++ back) (front.length + d) = newlines front + lineOf back d := by
  unfold lineOf
  rw [List.take_length_add_append, newlines_append, Nat.add_assoc]

theorem lineOf_mono (text : Bytes) : Monotone (lineOf text) := by
  intro o o' h
  apply Nat.succ_le_succ
  exact newlines_le (List.take_prefix_take_left h).sublist

theorem lineOf_le (text : Bytes) (o : Nat) : lineOf text o ≤ newlines text + 1 := by
  apply Nat.succ_le_succ
  exact newlines_le (List.take_sublist o text)

/-! ## Between two newlines -/

/-- Where the newlines of a text stand, first to last. -/
def newlinePlaces (text : Bytes) : List Nat :=
  (List.range text.length).filter fun p => text[p]? = some newline

/-- The offset lies on the line `n`: behind the newline that ends the line before it, and not
behind the one that ends the line itself. -/
structure OnLine (text : Bytes) (n o : Nat) : Prop where
  pos : 1 ≤ n
  behind : 2 ≤ n → ∃ p, (newlinePlaces text)[n - 2]? = some p ∧ p < o
  upTo : ∀ p, (newlinePlaces text)[n - 1]? = some p → o ≤ p

theorem newlinePlaces_cons (b : UInt8) (text : Bytes) : newlinePlaces (b :: text) =
    (if b = newline then [0] else []) ++ (newlinePlaces text).map Nat.succ := by
  unfold newlinePlaces
  rw [List.length_cons, List.range_succ_eq_map, List.filter_cons, List.filter_map]
  by_cases hb : b = newline <;> simp [hb, Function.comp_def]

theorem length_newlinePlaces (text : Bytes) : (newlinePlaces text).length = newlines text := by
  induction text with
  | nil => rfl
  | cons b text ih =>
    rw [newlinePlaces_cons, List.length_append, List.length_map, ih, newlines, newlines,
      List.count_cons]
    by_cases hb : b = newline <;> simp [hb, Nat.add_comm]

/-- The newlines before an offset are those that end a line before its own. -/
theorem place_lt_iff (h : (newlinePlaces text)[k]? = some p) :
    p < o ↔ k + 2 ≤ lineOf text o := by
  induction text generalizing k p o with
  | nil => simp [newlinePlaces] at h
  | cons b text ih =>
    cases o with
    | zero =>
      rw [lineOf_zero]
      omega
    | succ o =>
      rw [lineOf_cons_succ]
      rw [newlinePlaces_cons] at h
      by_cases hb : b = newline
      · simp only [hb, if_true, List.singleton_append] at h ⊢
        cases k with
        | zero =>
          rw [List.getElem?_cons_zero, Option.some.injEq] at h
          have : 1 ≤ lineOf text o := Nat.le_add_left 1 _
          omega
        | succ k =>
          rw [List.getElem?_cons_succ, List.getElem?_map, Option.map_eq_some_iff] at h
          obtain ⟨q, hq, rfl⟩ := h
          have := ih (o := o) hq
          omega
      · simp only [hb, if_false, List.nil_append, List.getElem?_map, Option.map_eq_some_iff] at h ⊢
        obtain ⟨q, hq, rfl⟩ := h
        have := ih (o := o) hq
        omega

/-- The number of an offset is that of the line that it lies on. -/
theorem lineOf_eq_iff : lineOf text o = n ↔ OnLine text n o := by
  have hlen := length_newlinePlaces text
  have hle := lineOf_le text o
  constructor
  · rintro rfl
    refine ⟨Nat.le_add_left 1 _, ?_, ?_⟩
    · intro htwo
      have hin : lineOf text o - 2 < (newlinePlaces text).length := by omega
      have hplace := List.getElem?_eq_getElem hin
      exact ⟨_, hplace, (place_lt_iff hplace).mpr (by omega)⟩
    · intro p hplace
      have := place_lt_iff (o := o) hplace
      omega
  · rintro ⟨hpos, hbehind, hupTo⟩
    apply Nat.le_antisymm
    · by_contra hmore
      have hin : n - 1 < (newlinePlaces text).length := by omega
      have hplace := List.getElem?_eq_getElem hin
      have := hupTo _ hplace
      have := place_lt_iff (o := o) hplace
      omega
    · by_cases hone : n = 1
      · rw [hone]
        exact Nat.le_add_left 1 _
      · obtain ⟨p, hplace, hlt⟩ := hbehind (by omega)
        have := (place_lt_iff hplace).mp hlt
        omega

/-! ## Lines in and behind a part of a text -/

/-- From the first byte of a part to its last one, a line ends with each newline in between. -/
theorem lineOf_last (front back : Bytes) {block : Bytes} (hne : block ≠ []) :
    lineOf (front ++ block ++ back) (front.length + block.length - 1) =
      lineOf (front ++ block ++ back) front.length + newlines block.dropLast := by
  have hpos := List.length_pos_iff.mpr hne
  rw [Nat.add_sub_assoc hpos, List.append_assoc, lineOf_append_right,
    ← Nat.add_zero front.length, lineOf_append_right, lineOf_zero, lineOf_append_left _ (by omega),
    lineOf, ← List.dropLast_eq_take]
  omega

/-- Behind a part, its newlines are all that the number of a line owes to it. -/
theorem lineOf_behind (front block back : Bytes) (d : Nat) :
    lineOf (front ++ block ++ back) (front.length + block.length + d) =
      newlines front + newlines block + lineOf back d := by
  rw [← List.length_append, lineOf_append_right, newlines_append]

/-! ## The lines of a block -/

namespace Markers

variable {m : Markers} {span : Span}

theorem start_le_anchor_lt_stop (h : m.find text = .ok span) :
    span.start ≤ span.anchor ∧ span.anchor < span.stop := by
  obtain ⟨hstart, hstop, _⟩ := find_bounds h
  have hne := Utf8.toList_ne_nil (find_eq_ok_iff.mp h).1.1
  have hanchor : 0 < (Utf8.bytes m.anchor).length :=
    List.length_pos_iff.mpr (Utf8.encode_eq_nil_iff.not.mpr hne)
  omega

/-- The text in three parts, and what a replacement makes of them. -/
theorem exists_parts (h : m.find text = .ok span) : ∃ front back,
    text = front ++ span.block text ++ back ∧ span.start = front.length ∧
      span.stop = front.length + (span.block text).length ∧
      ∀ fresh, span.replace text fresh = front ++ fresh ++ back := by
  obtain ⟨htext, hfront, hstop⟩ := find_split h
  refine ⟨text.take span.start, text.drop span.stop, htext.symm, hfront.symm, ?_, ?_⟩
  · rw [hfront, hstop]
  · intro fresh
    rfl

/-- The anchor stands on no earlier line than the start marker and on no later one than the
last byte of the end marker. -/
theorem anchor_line_between (h : m.find text = .ok span) :
    span.firstLine text ≤ lineOf text span.anchor ∧
      lineOf text span.anchor ≤ span.lastLine text := by
  obtain ⟨hstart, hstop⟩ := start_le_anchor_lt_stop h
  constructor
  · exact lineOf_mono text hstart
  · exact lineOf_mono text (Nat.le_sub_one_of_lt hstop)

/-- The lines of a block go on with each newline in it, unless the newline is its last byte. -/
theorem lastLine_eq (h : m.find text = .ok span) :
    span.lastLine text = span.firstLine text + newlines (span.block text).dropLast := by
  obtain ⟨hstart, hlt⟩ := start_le_anchor_lt_stop h
  obtain ⟨front, back, htext, hfront, hstop, _⟩ := exists_parts h
  have hne : span.block text ≠ [] := by
    apply List.ne_nil_of_length_pos
    omega
  unfold Span.lastLine Span.firstLine
  rw [hstop, hfront]
  generalize span.block text = block at htext hne ⊢
  rw [htext]
  exact lineOf_last front back hne

/-- What stands behind a block moves by the difference of newlines. -/
theorem lineOf_replace_behind (h : m.find text = .ok span) (fresh : Bytes) (ho : span.stop ≤ o) :
    lineOf (span.replace text fresh) (o - span.length + fresh.length) +
      newlines (span.block text) = lineOf text o + newlines fresh := by
  obtain ⟨front, back, htext, hfront, hstop, hreplace⟩ := exists_parts h
  obtain ⟨d, rfl⟩ := Nat.exists_eq_add_of_le ho
  have hmoved : span.stop + d - span.length + fresh.length =
      front.length + fresh.length + d := by
    unfold Span.length
    omega
  rw [hmoved, hreplace, hstop]
  generalize span.block text = block at htext ⊢
  rw [htext, lineOf_behind, lineOf_behind]
  omega

/-- What stands in front of a block stays where it is. -/
theorem lineOf_replace_before (h : m.find text = .ok span) (fresh : Bytes) (ho : o ≤ span.start) :
    lineOf (span.replace text fresh) o = lineOf text o := by
  obtain ⟨front, back, htext, hfront, _, hreplace⟩ := exists_parts h
  rw [hfront] at ho
  rw [hreplace, List.append_assoc, lineOf_append_left _ ho]
  generalize span.block text = block at htext
  rw [htext, List.append_assoc, lineOf_append_left _ ho]

/-! ## The law -/

/-- Line numbers never fall, and each is that of the line between two newlines that its offset
lies on. In a block that is found, the lines of the start marker, the anchor and the end marker
come in this order, and they go on with each newline of the block but one that is its last
byte. With another block in its place, what stands before the block keeps its lines, and what
stands behind it moves by the difference of newlines, past the end of the text too. -/
theorem line_numbers_follow_the_newlines (m : Markers) (text : Bytes) :
    Monotone (lineOf text) ∧
    (∀ o n, lineOf text o = n ↔ OnLine text n o) ∧
    ∀ span, m.find text = .ok span ∨ m.findOnly text = .ok span →
      (span.firstLine text ≤ lineOf text span.anchor ∧
        lineOf text span.anchor ≤ span.lastLine text) ∧
      span.lastLine text = span.firstLine text + newlines (span.block text).dropLast ∧
      ∀ fresh,
        (∀ o, span.stop ≤ o → lineOf (span.replace text fresh) (o - span.length + fresh.length) +
          newlines (span.block text) = lineOf text o + newlines fresh) ∧
        ∀ o ≤ span.start, lineOf (span.replace text fresh) o = lineOf text o := by
  refine ⟨lineOf_mono text, ?_, ?_⟩
  · intro o n
    exact lineOf_eq_iff
  · intro span hlocated
    have h : m.find text = .ok span := hlocated.elim id find_of_findOnly
    refine ⟨anchor_line_between h, lastLine_eq h, ?_⟩
    intro fresh
    constructor
    · intro o ho
      exact lineOf_replace_behind h fresh ho
    · intro o ho
      exact lineOf_replace_before h fresh ho

/-- The end marker takes the newline behind it along. -/
def wholeLines : Markers := ⟨"key", "<k", "k>\n"⟩

/-- The block ends on its fourth line, and with a line less in it the end of the text moves up. -/
theorem the_line_behind_the_key_moves_up :
    wholeLines.find (Utf8.bytes "top\n<k\nkey\nk>\nend") = .ok ⟨4, 14, 7⟩ ∧
    lineOf (Utf8.bytes "top\n<k\nkey\nk>\nend") 13 = 4 ∧
    lineOf (Utf8.bytes "top\n<k\nk>\nend") 10 + 3 =
      lineOf (Utf8.bytes "top\n<k\nkey\nk>\nend") 14 + 2 := by
  have hfound : wholeLines.find (Utf8.bytes "top\n<k\nkey\nk>\nend") = .ok ⟨4, 14, 7⟩ := by
    decide
  obtain ⟨_, _, hblock⟩ :=
    line_numbers_follow_the_newlines wholeLines (Utf8.bytes "top\n<k\nkey\nk>\nend")
  obtain ⟨_, hlast, hmoved⟩ := hblock ⟨4, 14, 7⟩ (.inl hfound)
  exact ⟨hfound, hlast, (hmoved (Utf8.bytes "<k\nk>\n")).1 14 le_rfl⟩

end Markers

end AnchoredBlocks
