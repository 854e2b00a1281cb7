-- Cuts that are checked. A cut is refused where it lies past the end of the text
-- or inside a character, and nothing comes of it then. The count of a text goes
-- from hit to hit by such cuts, one character further each time, and it still
-- counts every place.
import AnchoredBlocks.Proofs.Characters

namespace AnchoredBlocks

namespace Cut

/-! ## Checked cuts -/

/-- The text up to an offset. -/
def before? (text : Bytes) (i : Nat) : Option Bytes :=
  if Utf8.isBoundary text i then some (text.take i) else none

/-- The text from an offset on. -/
def after? (text : Bytes) (i : Nat) : Option Bytes :=
  if Utf8.isBoundary text i then some (text.drop i) else none

/-- What stands from `start` up to `stop`. -/
def between? (text : Bytes) (start stop : Nat) : Option Bytes :=
  if start ≤ stop ∧ Utf8.isBoundary text start ∧ Utf8.isBoundary text stop then
    some (slice text start stop)
  else none

/-- A difference, refused where it would fall below zero. -/
def minus? (a b : Nat) : Option Nat := if b ≤ a then some (a - b) else none

theorem le_of_after? {text rest : Bytes} {i : Nat} (h : after? text i = some rest) :
    i ≤ text.length := by
  unfold after? at h
  split at h
  · exact Utf8.le_of_isBoundary ‹_›
  · cases h

/-! ## From hit to hit -/

/-- How many bytes the first character takes. Where there is none, it counts as one. -/
def headWidth (text : Bytes) : Nat :=
  match text with
  | [] => 1
  | b :: rest =>
    match Utf8.step b rest with
    | .ok (c, _) => c.utf8Size
    | .error _ => 1

theorem headWidth_pos (text : Bytes) : 0 < headWidth text := by
  unfold headWidth
  split
  · exact Nat.one_pos
  · split
    · exact Char.utf8Size_pos _
    · exact Nat.one_pos

/-- Counts the hits from an offset on, after `count` others. Behind a hit the search goes on
with the second character of it. -/
def countHits? (needle text : Bytes) (i count : Nat) : Option Nat :=
  match _h : after? text i with
  | none => none
  | some rest =>
    match first? needle rest with
    | none => some count
    | some offset =>
      match after? text (i + offset) with
      | none => none
      | some hit => countHits? needle text (i + offset + headWidth hit) (count + 1)
termination_by text.length + 1 - i
decreasing_by
  have := le_of_after? _h
  have := headWidth_pos hit
  omega

/-! ## Every place is hit once -/

theorem headWidth_encode (c : Char) (cs : List Char) :
    headWidth (Utf8.encode (c :: cs)) = (String.utf8EncodeChar c).length := by
  obtain ⟨b, tail, hb, hfills⟩ := Utf8.exists_fills c
  rw [Utf8.encode_cons, hb, List.cons_append, headWidth,
    Utf8.step_encodeChar hb hfills (Utf8.encode cs), ← hb, String.length_utf8EncodeChar]

/-- No place begins with a byte that goes on with a character. -/
theorem not_isContinuation_of_occursAt {n : Char} {ns : List Char} {text : Bytes} {i : Nat}
    (h : OccursAt (Utf8.encode (n :: ns)) text i) {b : UInt8} (hb : text[i]? = some b) :
    Utf8.isContinuation b = false := by
  obtain ⟨first, tail, hn, hfirst, _⟩ := Utf8.encodeChar_eq_cons n
  obtain ⟨rest, hrest⟩ := h.2
  rw [← Nat.add_zero i, ← List.getElem?_drop, ← hrest, Utf8.encode_cons, hn] at hb
  obtain rfl : first = b := Option.some.inj hb
  exact hfirst

/-- A place at the head of a text counts once, and the other bytes of its first character hold
no place. -/
theorem occurrences_head {n c : Char} {ns cs : List Char}
    (h : Utf8.encode (n :: ns) <+: Utf8.encode (c :: cs)) :
    occurrences (Utf8.encode (n :: ns)) (Utf8.encode (c :: cs)) =
      1 + occurrences (Utf8.encode (n :: ns)) (Utf8.encode cs) := by
  obtain ⟨b, tail, hb, _, htail⟩ := Utf8.encodeChar_eq_cons c
  rw [Utf8.encode_cons c, hb, List.cons_append] at h ⊢
  rw [occurrences_cons, if_pos h, occurrences_append]
  intro i hi hocc
  have hget : (tail ++ Utf8.encode cs)[i]? = some tail[i] := by
    rw [List.getElem?_append_left hi, List.getElem?_eq_getElem hi]
  have hgoes := htail _ (List.getElem_mem hi)
  rw [not_isContinuation_of_occursAt hocc hget] at hgoes
  cases hgoes

/-- Up to the end of the first character of the first hit, a text holds that hit only. -/
theorem occurrences_first {n : Char} {ns cs : List Char} {offset : Nat}
    (h : first? (Utf8.encode (n :: ns)) (Utf8.encode cs) = some offset) :
    ∃ before c after, cs = before ++ c :: after ∧ (Utf8.encode before).length = offset ∧
      occurrences (Utf8.encode (n :: ns)) (Utf8.encode cs) =
        1 + occurrences (Utf8.encode (n :: ns)) (Utf8.encode after) := by
  obtain ⟨hocc, hleast⟩ := first?_eq_some_iff.mp h
  obtain ⟨hboundary, _⟩ := Utf8.isBoundary_of_occursAt (List.cons_ne_nil n ns) hocc
  obtain ⟨before, rest, rfl, rfl⟩ := Utf8.exists_split_of_isBoundary hboundary
  have hbegins := hocc.2
  rw [Utf8.encode_append, List.drop_left] at hbegins
  obtain ⟨more, rfl⟩ := Utf8.prefix_of_encode_prefix hbegins
  refine ⟨before, n, ns ++ more, rfl, rfl, ?_⟩
  rw [Utf8.encode_append, occurrences_append]
  · exact occurrences_head hbegins
  · intro i hi hearly
    rw [← Utf8.encode_append] at hearly
    exact Nat.not_le_of_lt hi (hleast hearly)

theorem after?_encode (front cs : List Char) :
    after? (Utf8.encode (front ++ cs)) (Utf8.encode front).length = some (Utf8.encode cs) := by
  unfold after?
  rw [Utf8.encode_append, if_pos (Utf8.isBoundary_append _ cs), List.drop_left]

/-- The hits from an offset on are the places behind it, and no cut on the way is refused. The
induction is on the characters that are left: each turn takes those up to the first hit, and
the first character of the hit. -/
theorem countHits?_encode (n : Char) (ns cs front : List Char) (count : Nat) :
    countHits? (Utf8.encode (n :: ns)) (Utf8.encode (front ++ cs)) (Utf8.encode front).length
      count = some (count + occurrences (Utf8.encode (n :: ns)) (Utf8.encode cs)) := by
  induction hlen : cs.length using Nat.strong_induction_on generalizing cs front count with
  | _ k ih =>
    subst hlen
    rw [countHits?]
    split
    · rename_i hcut
      rw [after?_encode] at hcut
      cases hcut
    · rename_i rest hcut
      rw [after?_encode] at hcut
      cases hcut
      split
      · rename_i hnone
        rw [occurrences_eq_zero_iff.mpr (first?_eq_none_iff.mp hnone), Nat.add_zero]
      · rename_i offset hsome
        obtain ⟨before, c, after, rfl, rfl, hcount⟩ := occurrences_first hsome
        have hhit : (Utf8.encode front).length + (Utf8.encode before).length =
            (Utf8.encode (front ++ before)).length := by
          rw [Utf8.encode_append, List.length_append]
        have hnext : (Utf8.encode (front ++ before)).length +
            headWidth (Utf8.encode (c :: after)) =
              (Utf8.encode (front ++ before ++ [c])).length := by
          rw [headWidth_encode, Utf8.encode_append _ [c], List.length_append]
          simp
        have htext : front ++ (before ++ c :: after) = front ++ before ++ c :: after :=
          (List.append_assoc _ _ _).symm
        have hrest : front ++ before ++ c :: after = front ++ before ++ [c] ++ after := by simp
        have hshorter : after.length < (before ++ c :: after).length := by
          simp only [List.length_append, List.length_cons]
          omega
        rw [hhit, htext, after?_encode]
        simp only [hnext]
        rw [hrest, ih _ hshorter _ _ _ rfl, hcount, Nat.add_assoc]

end Cut

end AnchoredBlocks
