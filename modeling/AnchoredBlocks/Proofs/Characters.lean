-- The laws of UTF-8. The decoder accepts exactly the encodings of characters, and
-- gives these characters back. A valid text that stands inside another one begins
-- and ends between two characters of it.
import Mathlib.Data.List.Forall2
import AnchoredBlocks.Utf8
import AnchoredBlocks.Proofs.Occurrences

namespace AnchoredBlocks.Utf8

/-! ## One character -/

/-- The rows of the table, said of numbers. -/
theorem tailRanges_eq (b : UInt8) : tailRanges b =
    if b.toNat < 0x80 then some []
    else if b.toNat < 0xC2 then none
    else if b.toNat < 0xE0 then some [(0x80, 0xBF)]
    else if b.toNat = 0xE0 then some [(0xA0, 0xBF), (0x80, 0xBF)]
    else if b.toNat = 0xED then some [(0x80, 0x9F), (0x80, 0xBF)]
    else if b.toNat < 0xF0 then some [(0x80, 0xBF), (0x80, 0xBF)]
    else if b.toNat = 0xF0 then some [(0x90, 0xBF), (0x80, 0xBF), (0x80, 0xBF)]
    else if b.toNat < 0xF4 then some [(0x80, 0xBF), (0x80, 0xBF), (0x80, 0xBF)]
    else if b.toNat = 0xF4 then some [(0x80, 0x8F), (0x80, 0xBF), (0x80, 0xBF)]
    else none := by
  simp only [tailRanges, UInt8.lt_iff_toNat_lt, ← UInt8.toNat_inj]
  rfl

/-- The byte lies in the range. -/
def InRange (r : UInt8 × UInt8) (b : UInt8) : Prop :=
  r.1.toNat ≤ b.toNat ∧ b.toNat ≤ r.2.toNat

/-- Bytes that fill their ranges begin with a byte of each range. -/
theorem inRange_of_fitting {ranges : List (UInt8 × UInt8)} {rest : Bytes}
    (h : fitting ranges rest = ranges.length) :
    List.Forall₂ InRange ranges (rest.take ranges.length) := by
  induction ranges generalizing rest with
  | nil => exact .nil
  | cons r ranges ih =>
    obtain ⟨low, high⟩ := r
    cases rest with
    | nil => simp [fitting] at h
    | cons b rest =>
      simp only [fitting] at h
      split at h
      · rename_i hb
        simp only [Bool.and_eq_true, decide_eq_true_eq] at hb
        simp only [List.length_cons, Nat.add_right_cancel_iff] at h
        exact .cons hb (ih h)
      · simp at h

theorem toNat_val_ofNat {v : Nat} (h : v.isValidChar) : (Char.ofNat v).val.toNat = v := by
  unfold Char.ofNat
  rw [dif_pos h]
  rfl

theorem encode_charOf_one {b : UInt8} (h : b.toNat < 0x80) :
    String.utf8EncodeChar (charOf b []) = [b] := by
  have hv : b.toNat.isValidChar := by left; omega
  simp only [charOf, leadBits, List.foldl_nil, List.length_nil]
  rw [String.utf8EncodeChar, toNat_val_ofNat hv, if_pos (by omega), UInt8.ofNat_toNat]

theorem encode_charOf_two {b x : UInt8} (h : 0xC2 ≤ b.toNat ∧ b.toNat < 0xE0)
    (hx : InRange (0x80, 0xBF) x) : String.utf8EncodeChar (charOf b [x]) = [b, x] := by
  simp only [InRange, UInt8.reduceToNat] at hx
  simp only [charOf, leadBits, List.foldl_cons, List.foldl_nil, List.length_cons, List.length_nil]
  generalize hv : b.toNat % 0x20 * 64 + x.toNat % 64 = v
  have hc : v.isValidChar := by left; omega
  rw [String.utf8EncodeChar, toNat_val_ofNat hc, if_neg (by omega), if_pos (by omega)]
  simp only [List.cons.injEq, ← UInt8.toNat_inj, UInt8.toNat_ofNat', and_true]
  omega

/-- The first byte of the tail keeps short characters and surrogates out. -/
theorem encode_charOf_three {b x y : UInt8} (h : 0xE0 ≤ b.toNat ∧ b.toNat < 0xF0)
    (hx : InRange (0x80, 0xBF) x) (hy : InRange (0x80, 0xBF) y)
    (hlow : b.toNat = 0xE0 → 0xA0 ≤ x.toNat) (hhigh : b.toNat = 0xED → x.toNat ≤ 0x9F) :
    String.utf8EncodeChar (charOf b [x, y]) = [b, x, y] := by
  simp only [InRange, UInt8.reduceToNat] at hx hy
  simp only [charOf, leadBits, List.foldl_cons, List.foldl_nil, List.length_cons, List.length_nil]
  generalize hv : (b.toNat % 0x10 * 64 + x.toNat % 64) * 64 + y.toNat % 64 = v
  have hc : v.isValidChar := by unfold Nat.isValidChar; omega
  rw [String.utf8EncodeChar, toNat_val_ofNat hc, if_neg (by omega), if_neg (by omega),
    if_pos (by omega)]
  simp only [List.cons.injEq, ← UInt8.toNat_inj, UInt8.toNat_ofNat', and_true]
  omega

/-- The first byte of the tail keeps short characters and numbers past the last character
out. -/
theorem encode_charOf_four {b x y z : UInt8} (h : 0xF0 ≤ b.toNat ∧ b.toNat < 0xF5)
    (hx : InRange (0x80, 0xBF) x) (hy : InRange (0x80, 0xBF) y) (hz : InRange (0x80, 0xBF) z)
    (hlow : b.toNat = 0xF0 → 0x90 ≤ x.toNat) (hhigh : b.toNat = 0xF4 → x.toNat ≤ 0x8F) :
    String.utf8EncodeChar (charOf b [x, y, z]) = [b, x, y, z] := by
  simp only [InRange, UInt8.reduceToNat] at hx hy hz
  simp only [charOf, leadBits, List.foldl_cons, List.foldl_nil, List.length_cons, List.length_nil]
  generalize hv :
    ((b.toNat % 0x08 * 64 + x.toNat % 64) * 64 + y.toNat % 64) * 64 + z.toNat % 64 = v
  have hc : v.isValidChar := by right; omega
  rw [String.utf8EncodeChar, toNat_val_ofNat hc, if_neg (by omega), if_neg (by omega),
    if_neg (by omega)]
  simp only [List.cons.injEq, ← UInt8.toNat_inj, UInt8.toNat_ofNat', and_true]
  omega

/-- A first byte and a tail in its ranges are the encoding of their character. -/
theorem encode_charOf {b : UInt8} {ranges : List (UInt8 × UInt8)} {tail : Bytes}
    (hr : tailRanges b = some ranges) (ht : List.Forall₂ InRange ranges tail) :
    String.utf8EncodeChar (charOf b tail) = b :: tail := by
  have wider : ∀ {l h x : UInt8}, InRange (l, h) x → 0x80 ≤ l.toNat → h.toNat ≤ 0xBF →
      InRange (0x80, 0xBF) x := fun hx hl hh => ⟨hl.trans hx.1, hx.2.trans hh⟩
  rw [tailRanges_eq] at hr
  split at hr
  · cases hr
    rcases ht with _ | _
    exact encode_charOf_one ‹_›
  split at hr
  · cases hr
  split at hr
  · cases hr
    rcases ht with _ | ⟨hx, _ | _⟩
    exact encode_charOf_two (by omega) hx
  iterate 3
    split at hr
    · cases hr
      rcases ht with _ | ⟨hx, _ | ⟨hy, _ | _⟩⟩
      refine encode_charOf_three (by omega) (wider hx (by decide) (by decide)) hy ?_ ?_
      · first | omega | exact fun _ => hx.1
      · first | omega | exact fun _ => hx.2
  iterate 3
    split at hr
    · cases hr
      rcases ht with _ | ⟨hx, _ | ⟨hy, _ | ⟨hz, _ | _⟩⟩⟩
      refine encode_charOf_four (by omega) (wider hx (by decide) (by decide)) hy hz ?_ ?_
      · first | omega | exact fun _ => hx.1
      · first | omega | exact fun _ => hx.2
  cases hr

/-- The bytes of one character never begin the bytes of another one. -/
theorem encodeChar_append_inj {c d : Char} {x y : Bytes}
    (h : String.utf8EncodeChar c ++ x = String.utf8EncodeChar d ++ y) : c = d ∧ x = y := by
  have hc : c = d := by
    have hbytes := congrArg (fun l => ByteArray.utf8DecodeChar? (List.toByteArray l) 0) h
    simp only [List.toByteArray_append, ByteArray.utf8DecodeChar?_utf8EncodeChar_append] at hbytes
    exact Option.some.inj hbytes
  subst hc
  exact ⟨rfl, List.append_cancel_left h⟩

theorem isContinuation_ofNat_mod (v : Nat) :
    isContinuation (UInt8.ofNat (v % 0x40 + 0x80)) = true := by
  simp only [isContinuation, UInt8.le_iff_toNat_le, UInt8.reduceToNat, UInt8.toNat_ofNat',
    Bool.and_eq_true, decide_eq_true_eq]
  omega

theorem not_isContinuation_ofNat {v : Nat} (h : v < 0x80 ∨ 0xC0 ≤ v ∧ v < 0x100) :
    isContinuation (UInt8.ofNat v) = false := by
  simp only [isContinuation, UInt8.le_iff_toNat_le, UInt8.reduceToNat, UInt8.toNat_ofNat',
    Bool.and_eq_false_iff, decide_eq_false_iff_not]
  omega

/-- Of the bytes of a character the first one begins it, and the others go on with it. -/
theorem encodeChar_eq_cons (c : Char) : ∃ b tail, String.utf8EncodeChar c = b :: tail ∧
    isContinuation b = false ∧ ∀ x ∈ tail, isContinuation x = true := by
  have goesOn (vs : List Nat) :
      ∀ x ∈ vs.map fun v => UInt8.ofNat (v % 0x40 + 0x80), isContinuation x = true := by
    rw [List.forall_mem_map]
    exact fun v _ => isContinuation_ofNat_mod v
  unfold String.utf8EncodeChar
  dsimp only
  split
  · exact ⟨_, _, rfl, not_isContinuation_ofNat (by omega), goesOn []⟩
  split
  · exact ⟨_, _, rfl, not_isContinuation_ofNat (by omega), goesOn [_]⟩
  split
  · exact ⟨_, _, rfl, not_isContinuation_ofNat (by omega), goesOn [_, _]⟩
  · exact ⟨_, _, rfl, not_isContinuation_ofNat (by omega), goesOn [_, _, _]⟩

/-! ## Texts -/

@[simp] theorem encode_nil : encode [] = [] := rfl

@[simp] theorem encode_cons (c : Char) (cs : List Char) :
    encode (c :: cs) = String.utf8EncodeChar c ++ encode cs := rfl

@[simp] theorem encode_append (cs ds : List Char) : encode (cs ++ ds) = encode cs ++ encode ds :=
  List.flatMap_append

theorem encode_eq_nil_iff {cs : List Char} : encode cs = [] ↔ cs = [] := by
  cases cs with
  | nil => simp
  | cons c cs =>
    obtain ⟨b, tail, hb, _⟩ := encodeChar_eq_cons c
    simp [hb]

theorem toList_ne_nil {s : String} (h : s ≠ "") : s.toList ≠ [] :=
  fun hs => h (String.toList_eq_nil_iff.mp hs)

theorem step_ok {b : UInt8} {rest after : Bytes} {c : Char} (h : step b rest = .ok (c, after)) :
    b :: rest = String.utf8EncodeChar c ++ after := by
  unfold step at h
  split at h
  · cases h
  · rename_i ranges hr
    simp only at h
    split at h
    · rename_i hn
      cases h
      rw [hn, encode_charOf hr (inRange_of_fitting hn), List.cons_append, List.take_append_drop]
    · split at h <;> cases h

theorem decodeFrom_ok {good : Nat} {done : List Char} {text : Bytes} {cs : List Char}
    (h : decodeFrom good done text = .ok cs) :
    ∃ more, cs = done.reverse ++ more ∧ text = encode more := by
  fun_induction decodeFrom good done text with
  | case1 good done => exact ⟨[], by cases h; simp, rfl⟩
  | case2 => cases h
  | case3 good done b rest c after hstep ih =>
    obtain ⟨more, rfl, hafter⟩ := ih h
    exact ⟨c :: more, by simp, by rw [step_ok hstep, hafter, encode_cons]⟩

/-- The decoder only gives characters back whose encoding is the text. -/
theorem encode_of_decode {text : Bytes} {cs : List Char} (h : decode text = .ok cs) :
    text = encode cs := by
  obtain ⟨more, hmore, htext⟩ := decodeFrom_ok h
  rw [htext, hmore, List.reverse_nil, List.nil_append]

/-- No encoding begins another one, unless its characters do. -/
theorem prefix_of_encode_prefix {ns cs : List Char} (h : encode ns <+: encode cs) :
    ns <+: cs := by
  induction ns generalizing cs with
  | nil => exact List.nil_prefix
  | cons n ns ih =>
    obtain ⟨rest, hrest⟩ := h
    obtain ⟨b, tail, hb, _⟩ := encodeChar_eq_cons n
    cases cs with
    | nil => simp [hb] at hrest
    | cons c cs =>
      rw [encode_cons, encode_cons, List.append_assoc] at hrest
      obtain ⟨rfl, htail⟩ := encodeChar_append_inj hrest
      exact (List.prefix_cons_inj n).mpr (ih ⟨rest, htail⟩)

/-! ## What the decoder accepts -/

/-- The bytes after a first byte fill the ranges of its row. -/
def Fills (b : UInt8) (tail : Bytes) : Prop :=
  ∃ ranges, tailRanges b = some ranges ∧ List.Forall₂ InRange ranges tail

theorem fills_one {b : UInt8} (h : b.toNat < 0x80) : Fills b [] := by
  refine ⟨[], ?_, .nil⟩
  rw [tailRanges_eq, if_pos h]

theorem fills_two {b x : UInt8} (h : 0xC2 ≤ b.toNat ∧ b.toNat < 0xE0)
    (hx : InRange (0x80, 0xBF) x) : Fills b [x] := by
  refine ⟨[(0x80, 0xBF)], ?_, .cons hx .nil⟩
  rw [tailRanges_eq, if_neg (by omega), if_neg (by omega), if_pos h.2]

theorem fills_three {b x y : UInt8} (h : 0xE0 ≤ b.toNat ∧ b.toNat < 0xF0)
    (hx : InRange (0x80, 0xBF) x) (hy : InRange (0x80, 0xBF) y)
    (hlow : b.toNat = 0xE0 → 0xA0 ≤ x.toNat) (hhigh : b.toNat = 0xED → x.toNat ≤ 0x9F) :
    Fills b [x, y] := by
  unfold Fills
  rw [tailRanges_eq, if_neg (by omega), if_neg (by omega), if_neg (by omega)]
  by_cases hfirst : b.toNat = 0xE0
  · rw [if_pos hfirst]
    exact ⟨_, rfl, .cons ⟨hlow hfirst, hx.2⟩ (.cons hy .nil)⟩
  rw [if_neg hfirst]
  by_cases hsurrogate : b.toNat = 0xED
  · rw [if_pos hsurrogate]
    exact ⟨_, rfl, .cons ⟨hx.1, hhigh hsurrogate⟩ (.cons hy .nil)⟩
  rw [if_neg hsurrogate, if_pos h.2]
  exact ⟨_, rfl, .cons hx (.cons hy .nil)⟩

theorem fills_four {b x y z : UInt8} (h : 0xF0 ≤ b.toNat ∧ b.toNat < 0xF5)
    (hx : InRange (0x80, 0xBF) x) (hy : InRange (0x80, 0xBF) y) (hz : InRange (0x80, 0xBF) z)
    (hlow : b.toNat = 0xF0 → 0x90 ≤ x.toNat) (hhigh : b.toNat = 0xF4 → x.toNat ≤ 0x8F) :
    Fills b [x, y, z] := by
  unfold Fills
  rw [tailRanges_eq, if_neg (by omega), if_neg (by omega), if_neg (by omega), if_neg (by omega),
    if_neg (by omega), if_neg (by omega)]
  by_cases hfirst : b.toNat = 0xF0
  · rw [if_pos hfirst]
    exact ⟨_, rfl, .cons ⟨hlow hfirst, hx.2⟩ (.cons hy (.cons hz .nil))⟩
  rw [if_neg hfirst]
  by_cases hlast : b.toNat = 0xF4
  · rw [if_neg (by omega), if_pos hlast]
    exact ⟨_, rfl, .cons ⟨hx.1, hhigh hlast⟩ (.cons hy (.cons hz .nil))⟩
  rw [if_pos (by omega)]
  exact ⟨_, rfl, .cons hx (.cons hy (.cons hz .nil))⟩

theorem inRange_ofNat_mod (v : Nat) : InRange (0x80, 0xBF) (UInt8.ofNat (v % 0x40 + 0x80)) := by
  simp only [InRange, UInt8.reduceToNat, UInt8.toNat_ofNat']
  omega

/-- The bytes of every character stand in the table. -/
theorem exists_fills (c : Char) :
    ∃ b tail, String.utf8EncodeChar c = b :: tail ∧ Fills b tail := by
  have hvalid : c.val.toNat < 0xD800 ∨ 0xDFFF < c.val.toNat ∧ c.val.toNat < 0x110000 := c.valid
  unfold String.utf8EncodeChar
  dsimp only
  generalize c.val.toNat = v at hvalid
  split
  · refine ⟨_, _, rfl, fills_one ?_⟩
    rw [UInt8.toNat_ofNat']
    omega
  split
  · refine ⟨_, _, rfl, fills_two ?_ (inRange_ofNat_mod _)⟩
    rw [UInt8.toNat_ofNat']
    omega
  split
  · refine ⟨_, _, rfl, fills_three ?_ (inRange_ofNat_mod _) (inRange_ofNat_mod _) ?_ ?_⟩
    all_goals
      simp only [UInt8.toNat_ofNat']
      omega
  · refine ⟨_, _, rfl, fills_four ?_ (inRange_ofNat_mod _) (inRange_ofNat_mod _)
      (inRange_ofNat_mod _) ?_ ?_⟩
    all_goals
      simp only [UInt8.toNat_ofNat']
      omega

theorem fitting_append {ranges : List (UInt8 × UInt8)} {tail : Bytes}
    (h : List.Forall₂ InRange ranges tail) (rest : Bytes) :
    fitting ranges (tail ++ rest) = ranges.length := by
  induction h with
  | nil => rfl
  | @cons r b _ _ hb _ ih =>
    obtain ⟨low, high⟩ := r
    simp only [InRange, ← UInt8.le_iff_toNat_le] at hb
    simp only [List.cons_append, fitting, hb, decide_true, Bool.and_self, if_true, ih,
      List.length_cons]

theorem step_encodeChar {b : UInt8} {tail : Bytes} {c : Char}
    (hc : String.utf8EncodeChar c = b :: tail) (h : Fills b tail) (rest : Bytes) :
    step b (tail ++ rest) = .ok (c, rest) := by
  obtain ⟨ranges, hrow, htail⟩ := h
  have hchar : charOf b tail = c := by
    have hsame := (encode_charOf hrow htail).trans hc.symm
    exact (encodeChar_append_inj (congrArg (· ++ []) hsame)).1
  unfold step
  simp only [hrow, fitting_append htail rest, if_true]
  rw [htail.length_eq, List.take_left, List.drop_left, hchar]

theorem decodeFrom_encode (good : Nat) (done cs : List Char) :
    decodeFrom good done (encode cs) = .ok (done.reverse ++ cs) := by
  induction cs generalizing good done with
  | nil =>
    rw [encode_nil, decodeFrom, List.append_nil]
  | cons c cs ih =>
    obtain ⟨b, tail, hb, hfills⟩ := exists_fills c
    have hstep := step_encodeChar hb hfills (encode cs)
    rw [encode_cons, hb, List.cons_append, decodeFrom]
    split
    · rename_i hfails
      rw [hstep] at hfails
      cases hfails
    · rename_i hok
      rw [hstep] at hok
      cases hok
      rw [ih, List.reverse_cons, List.append_assoc, List.singleton_append]

/-- The decoder accepts exactly the valid texts. -/
theorem valid_iff {text : Bytes} : Valid text ↔ ∃ cs, decode text = .ok cs := by
  constructor
  · rintro ⟨cs, rfl⟩
    exact ⟨cs, decodeFrom_encode 0 [] cs⟩
  · rintro ⟨cs, hcs⟩
    exact ⟨cs, encode_of_decode hcs⟩

/-! ## Boundaries -/

/-- Between two encodings lies a boundary. -/
theorem isBoundary_append (front : Bytes) (cs : List Char) :
    isBoundary (front ++ encode cs) front.length = true := by
  unfold isBoundary
  cases cs with
  | nil => simp
  | cons c cs =>
    obtain ⟨b, tail, hb, hfirst, _⟩ := encodeChar_eq_cons c
    simp [hb, hfirst]

/-- A boundary parts the characters in two. -/
theorem exists_split_of_isBoundary {cs : List Char} {i : Nat}
    (h : isBoundary (encode cs) i = true) :
    ∃ before after, cs = before ++ after ∧ (encode before).length = i := by
  induction cs generalizing i with
  | nil =>
    simp [isBoundary] at h
    exact ⟨[], [], rfl, h.symm⟩
  | cons c cs ih =>
    obtain ⟨b, tail, hb, _, htail⟩ := encodeChar_eq_cons c
    rcases i with _ | i
    · exact ⟨[], c :: cs, rfl, rfl⟩
    · -- An offset inside the first character stands at a byte that goes on with it.
      have hlt : ¬ i < tail.length := by
        intro hi
        simp only [isBoundary, encode_cons, hb, List.cons_append, List.getElem?_cons_succ,
          List.getElem?_append_left hi, List.getElem?_eq_getElem hi] at h
        simp [htail _ (List.getElem_mem hi)] at h
      have hrest : isBoundary (encode cs) (i - tail.length) = true := by
        unfold isBoundary at h ⊢
        rw [encode_cons, hb, List.cons_append, List.getElem?_cons_succ,
          List.getElem?_append_right (Nat.le_of_not_lt hlt)] at h
        cases hget : (encode cs)[i - tail.length]? with
        | some x => simpa [hget] using h
        | none =>
          simp only [hget, List.length_cons, List.length_append, beq_iff_eq] at h ⊢
          omega
      obtain ⟨before, after, rfl, hlen⟩ := ih hrest
      refine ⟨c :: before, after, rfl, ?_⟩
      simp only [encode_cons, hb, List.length_append, List.length_cons, hlen]
      omega

/-- A valid text that stands in another one stands between two characters of it. -/
theorem isBoundary_of_occursAt {ns cs : List Char} {i : Nat} (hne : ns ≠ [])
    (h : OccursAt (encode ns) (encode cs) i) :
    isBoundary (encode cs) i = true ∧
      isBoundary (encode cs) (i + (encode ns).length) = true := by
  obtain ⟨n, ns', rfl⟩ := List.exists_cons_of_ne_nil hne
  obtain ⟨b, tail, hb, hfirst, _⟩ := encodeChar_eq_cons n
  have hi : isBoundary (encode cs) i = true := by
    obtain ⟨rest, hrest⟩ := h.2
    have hget : (encode cs)[i]? = some b := by
      rw [← Nat.add_zero i, ← List.getElem?_drop, ← hrest, encode_cons, hb]
      rfl
    simp [isBoundary, hget, hfirst]
  refine ⟨hi, ?_⟩
  obtain ⟨before, after, rfl, rfl⟩ := exists_split_of_isBoundary hi
  have hp := h.2
  rw [encode_append, List.drop_left] at hp
  obtain ⟨rest, rfl⟩ := prefix_of_encode_prefix hp
  have := isBoundary_append (encode before ++ encode (n :: ns')) rest
  rwa [List.length_append, List.append_assoc, ← encode_append, ← encode_append] at this

/-! ## Pieces of a text -/

variable {text : Bytes} {i j : Nat}

theorem Valid.append {front back : Bytes} (hfront : Valid front) (hback : Valid back) :
    Valid (front ++ back) := by
  obtain ⟨before, rfl⟩ := hfront
  obtain ⟨after, rfl⟩ := hback
  exact ⟨before ++ after, (encode_append before after).symm⟩

/-- A boundary parts a valid text into two valid ones. -/
theorem Valid.parts (h : Valid text) (hi : isBoundary text i = true) :
    Valid (text.take i) ∧ Valid (text.drop i) := by
  obtain ⟨cs, rfl⟩ := h
  obtain ⟨before, after, rfl, rfl⟩ := exists_split_of_isBoundary hi
  rw [encode_append, List.take_left, List.drop_left]
  exact ⟨⟨before, rfl⟩, ⟨after, rfl⟩⟩

theorem le_of_isBoundary (h : isBoundary text i = true) : i ≤ text.length := by
  unfold isBoundary at h
  split at h
  · rename_i b hb
    exact (List.getElem?_eq_some_iff.mp hb).1.le
  · exact (beq_iff_eq.mp h).le

/-- In front of a valid text lies a boundary, whatever stands before it. -/
theorem isBoundary_of_valid (front : Bytes) {back : Bytes} (h : Valid back) :
    isBoundary (front ++ back) front.length = true := by
  obtain ⟨cs, rfl⟩ := h
  exact isBoundary_append front cs

/-- Where a text is cut, its boundaries before the cut stay. -/
theorem isBoundary_take (hi : isBoundary text i = true) (hj : isBoundary text j = true)
    (hle : j ≤ i) : isBoundary (text.take i) j = true := by
  have hlen := List.length_take_of_le (le_of_isBoundary hi)
  unfold isBoundary at hj ⊢
  rcases hle.lt_or_eq with hlt | rfl
  · have hin : j < text.length := hlt.trans_le (le_of_isBoundary hi)
    rw [List.getElem?_eq_getElem hin] at hj
    rwa [List.getElem?_take_of_lt hlt, List.getElem?_eq_getElem hin]
  · rw [List.getElem?_eq_none hlen.le, hlen]
    exact beq_self_eq_true j

/-- What stands between two boundaries is valid. -/
theorem Valid.slice (h : Valid text) (hi : isBoundary text i = true)
    (hj : isBoundary text j = true) (hle : i ≤ j) : Valid (slice text i j) :=
  ((h.parts hj).1.parts (isBoundary_take hj hi hle)).2

/-- A splice that cuts no character is valid again. -/
theorem Valid.splice {fresh : Bytes} {start stop : Nat} (h : Valid text)
    (hstart : isBoundary text start = true) (hstop : isBoundary text stop = true)
    (hfresh : Valid fresh) : Valid (splice text start stop fresh) :=
  ((h.parts hstart).1.append hfresh).append (h.parts hstop).2

end AnchoredBlocks.Utf8
