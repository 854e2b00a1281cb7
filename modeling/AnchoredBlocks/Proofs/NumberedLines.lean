-- The lines of a text as parts of it. A line begins at the head of the text or behind a
-- newline, and ends with a newline, with a carriage return and a newline, or with the
-- text. The list of lines holds exactly these parts, and the number of a line is the
-- line number of each of its bytes.
import AnchoredBlocks.NearLine
import AnchoredBlocks.Proofs.LineNumbers

namespace AnchoredBlocks

/-! ## Newlines among characters -/

namespace Utf8

/-- A character of one byte shares that byte with no other character. -/
theorem mem_encodeChar_iff {a c : Char} {b : UInt8} (ha : String.utf8EncodeChar a = [b]) :
    b ∈ String.utf8EncodeChar c ↔ c = a := by
  constructor
  · intro hb
    obtain ⟨first, tail, hc, _, htail⟩ := encodeChar_eq_cons c
    obtain ⟨b', tail', ha', hfirst, _⟩ := encodeChar_eq_cons a
    rw [ha, List.cons.injEq] at ha'
    rw [hc, List.mem_cons] at hb
    rcases hb with rfl | hb
    · have hsame : String.utf8EncodeChar c ++ [] = String.utf8EncodeChar a ++ tail := by
        rw [hc, ha, List.append_nil, List.singleton_append]
      exact (encodeChar_append_inj hsame).1
    · rw [← ha'.1, htail b hb] at hfirst
      cases hfirst
  · rintro rfl
    simp [ha]

theorem mem_encode_iff {a : Char} {b : UInt8} (ha : String.utf8EncodeChar a = [b])
    {cs : List Char} : b ∈ encode cs ↔ a ∈ cs := by
  unfold encode
  simp [mem_encodeChar_iff ha]

theorem getLast?_encode_iff {a : Char} {b : UInt8} (ha : String.utf8EncodeChar a = [b])
    {cs : List Char} : (encode cs).getLast? = some b ↔ cs.getLast? = some a := by
  rcases List.eq_nil_or_concat cs with rfl | ⟨front, c, rfl⟩
  · simp
  · have hne : String.utf8EncodeChar c ≠ [] := String.utf8EncodeChar_ne_nil
    rw [List.concat_eq_append, encode_append, encode_cons, encode_nil, List.append_nil,
      List.getLast?_append_of_ne_nil _ hne, List.getLast?_concat, Option.some.injEq]
    constructor
    · intro hlast
      exact (mem_encodeChar_iff ha).mp (List.mem_of_getLast? hlast)
    · rintro rfl
      simp [ha]

theorem newlines_encode (cs : List Char) : newlines (encode cs) = cs.count '\n' := by
  induction cs with
  | nil => rfl
  | cons c cs ih =>
    rw [encode_cons, newlines_append, ih, List.count_cons, Nat.add_comm]
    by_cases hc : c = '\n'
    · rw [hc]
      rfl
    · have hnone : newline ∉ String.utf8EncodeChar c := fun h =>
        hc ((mem_encodeChar_iff rfl).mp h)
      simp [hc, newlines, List.count_eq_zero_of_not_mem hnone]

end Utf8

/-! ## A line as a part of a text -/

/-- A line of a text: what stands before it, what it holds, and its end. -/
structure TextLine where
  before : List Char
  body : List Char
  ending : List Char

/-- How a line with this body may end, and what may stand behind its end. A carriage return
right before the newline belongs to the end. -/
inductive Ends (body : List Char) : List Char → List Char → Prop
  | newline (after : List Char) : body.getLast? ≠ some '\r' → Ends body ['\n'] after
  | returned (after : List Char) : Ends body ['\r', '\n'] after
  | text : body ≠ [] → Ends body [] []

namespace TextLine

/-- The number of the line, from 1. -/
def number (l : TextLine) : Nat := l.before.count '\n' + 1

/-- The offset of the first byte of the line. -/
def start (l : TextLine) : Nat := (Utf8.encode l.before).length

/-- The offset behind the last byte of the end of the line. -/
def stop (l : TextLine) : Nat := l.start + (Utf8.encode (l.body ++ l.ending)).length

/-- What is shown of the line. -/
def shown (l : TextLine) : List Char := trimChars l.body

/-- The line stands in the text. -/
structure In (l : TextLine) (text : List Char) : Prop where
  begins : l.before = [] ∨ ∃ front, l.before = front ++ ['\n']
  unbroken : '\n' ∉ l.body
  ends : ∃ after, Ends l.body l.ending after ∧ text = l.before ++ l.body ++ l.ending ++ after

/-- The line with more text in front of it. -/
def behind (front : List Char) (l : TextLine) : TextLine := { l with before := front ++ l.before }

/-- The first line of a text, from what stands before the first newline. -/
def first (head : List Char) : TextLine :=
  if head.getLast? = some '\r' then ⟨[], head.dropLast, ['\r', '\n']⟩ else ⟨[], head, ['\n']⟩

variable {l : TextLine} {text head rest : List Char}

theorem number_behind (front : List Char) (l : TextLine) :
    (l.behind front).number = front.count '\n' + l.number := by
  simp [behind, number, Nat.add_assoc]

theorem number_first (head : List Char) : (first head).number = 1 := by
  unfold first
  split <;> rfl

/-! ## The first line and the others -/

/-- Two ways to part a text at a newline: the second is at the first newline, or behind it. -/
theorem append_newline_eq_iff {front back : List Char} (hhead : '\n' ∉ head) :
    front ++ '\n' :: back = head ++ '\n' :: rest ↔ front = head ∧ back = rest ∨
      ∃ more, front = head ++ '\n' :: more ∧ rest = more ++ '\n' :: back := by
  constructor
  · intro h
    rcases List.append_eq_append_iff.mp h with ⟨as, rfl, hrest⟩ | ⟨bs, rfl, hrest⟩
    · cases as with
      | nil => simp_all
      | cons a as => simp_all
    · cases bs with
      | nil => simp_all
      | cons b bs => simp_all
  · rintro (⟨rfl, rfl⟩ | ⟨more, rfl, rfl⟩)
    · rfl
    · simp

theorem in_iff_of_unbroken (htext : '\n' ∉ text) :
    l.In text ↔ text ≠ [] ∧ l = ⟨[], text, []⟩ := by
  obtain ⟨before, body, ending⟩ := l
  constructor
  · rintro ⟨hbegins, _, after, hends, rfl⟩
    simp only [List.mem_append, not_or] at htext
    have hbefore : before = [] := by
      rcases hbegins with h | ⟨front, rfl⟩
      · exact h
      · simp at htext
    cases hends with
    | newline => simp at htext
    | returned => simp at htext
    | text hne => simpa [hbefore] using hne
  · rintro ⟨hne, h⟩
    cases h
    exact ⟨.inl rfl, htext, [], .text hne, by simp⟩

theorem first_in (hhead : '\n' ∉ head) (rest : List Char) :
    (first head).In (head ++ '\n' :: rest) := by
  unfold first
  split
  · rename_i hreturn
    obtain ⟨body, rfl⟩ := List.getLast?_eq_some_iff.mp hreturn
    simp only [List.mem_append, not_or] at hhead
    exact ⟨.inl rfl, by simpa using hhead.1, rest, .returned rest, by simp⟩
  · rename_i hreturn
    exact ⟨.inl rfl, hhead, rest, .newline rest hreturn, by simp⟩

theorem In.behind (h : l.In rest) (head : List Char) :
    (l.behind (head ++ ['\n'])).In (head ++ '\n' :: rest) := by
  obtain ⟨hbegins, hunbroken, after, hends, rfl⟩ := h
  refine ⟨.inr ?_, hunbroken, after, hends, by simp [TextLine.behind]⟩
  rcases hbegins with hbefore | ⟨front, hbefore⟩
  · exact ⟨head, by simp [TextLine.behind, hbefore]⟩
  · exact ⟨head ++ '\n' :: front, by simp [TextLine.behind, hbefore]⟩

/-- A line that begins the text is the first line of it. -/
theorem eq_first_of_in {body ending : List Char} (hhead : '\n' ∉ head)
    (h : In ⟨[], body, ending⟩ (head ++ '\n' :: rest)) : ⟨[], body, ending⟩ = first head := by
  obtain ⟨_, hunbroken, after, hends, htext⟩ := h
  simp only [List.nil_append] at hunbroken hends htext
  -- Without a newline of its own the body ends at the first newline of the text.
  have hcut : ∀ {front back}, '\n' ∉ front → head ++ '\n' :: rest = front ++ '\n' :: back →
      front = head := by
    intro front back hfront heq
    rcases (append_newline_eq_iff hhead).mp heq.symm with ⟨h, _⟩ | ⟨more, rfl, _⟩
    · exact h
    · simp at hfront
  cases hends with
  | newline _ hreturn =>
    obtain rfl := hcut hunbroken (by simpa using htext)
    rw [first, if_neg hreturn]
  | returned =>
    have hbody : '\n' ∉ body ++ ['\r'] := by simpa using hunbroken
    obtain rfl := hcut hbody (by simpa using htext)
    simp [first]
  | text hne =>
    rw [List.append_nil, List.append_nil] at htext
    simp [← htext] at hunbroken

/-- Behind the first newline of a text its other lines are those of the rest. -/
theorem in_iff_of_broken (hhead : '\n' ∉ head) : l.In (head ++ '\n' :: rest) ↔
    l = first head ∨ ∃ l' : TextLine, l'.In rest ∧ l = l'.behind (head ++ ['\n']) := by
  constructor
  · intro h
    obtain ⟨before, body, ending⟩ := l
    rcases h.begins with hbefore | ⟨front, hbefore⟩
    · obtain rfl : before = [] := hbefore
      exact .inl (eq_first_of_in hhead h)
    · obtain rfl : before = front ++ ['\n'] := hbefore
      obtain ⟨_, hunbroken, after, hends, htext⟩ := h
      right
      have hparts : front ++ '\n' :: (body ++ ending ++ after) = head ++ '\n' :: rest := by
        simpa using htext.symm
      rcases (append_newline_eq_iff hhead).mp hparts with ⟨rfl, rfl⟩ | ⟨more, rfl, rfl⟩
      · exact ⟨⟨[], body, ending⟩, ⟨.inl rfl, hunbroken, after, hends, by simp⟩, by simp [behind]⟩
      · exact ⟨⟨more ++ ['\n'], body, ending⟩, ⟨.inr ⟨more, rfl⟩, hunbroken, after, hends, by simp⟩,
          by simp [behind]⟩
  · rintro (rfl | ⟨l', hl', rfl⟩)
    · exact first_in hhead rest
    · exact hl'.behind head

/-! ## The list of lines -/

theorem linesFrom_break {pending head : Bytes} (rest : Bytes) (hhead : newline ∉ head) :
    linesFrom pending (head ++ newline :: rest) =
      withoutReturn (pending.reverse ++ head) :: linesFrom [] rest := by
  induction head generalizing pending with
  | nil => simp [linesFrom]
  | cons b head ih =>
    simp only [List.mem_cons, not_or] at hhead
    rw [List.cons_append, linesFrom, if_neg (Ne.symm hhead.1), ih hhead.2]
    simp

theorem linesFrom_unbroken {pending text : Bytes} (htext : newline ∉ text) :
    linesFrom pending text =
      if pending.reverse ++ text = [] then [] else [pending.reverse ++ text] := by
  induction text generalizing pending with
  | nil => cases pending <;> simp [linesFrom]
  | cons b text ih =>
    simp only [List.mem_cons, not_or] at htext
    rw [linesFrom, if_neg (Ne.symm htext.1), ih htext.2]
    simp

theorem encode_body_first (head : List Char) :
    Utf8.encode (first head).body = withoutReturn (Utf8.encode head) := by
  have hreturn : String.utf8EncodeChar '\r' = [13] := rfl
  unfold first withoutReturn
  simp only [Utf8.getLast?_encode_iff hreturn]
  split
  · rename_i hlast
    obtain ⟨body, rfl⟩ := List.getLast?_eq_some_iff.mp hlast
    rw [Utf8.encode_append, Utf8.encode_cons, hreturn]
    simp
  · rfl

theorem textLines_unbroken (htext : '\n' ∉ text) :
    textLines (Utf8.encode text) = if text = [] then [] else [Utf8.encode text] := by
  have hbytes : newline ∉ Utf8.encode text := fun h => htext ((Utf8.mem_encode_iff rfl).mp h)
  rw [textLines, linesFrom_unbroken hbytes]
  simp [Utf8.encode_eq_nil_iff]

theorem textLines_broken (hhead : '\n' ∉ head) (rest : List Char) :
    textLines (Utf8.encode (head ++ '\n' :: rest)) =
      Utf8.encode (first head).body :: textLines (Utf8.encode rest) := by
  have hbytes : newline ∉ Utf8.encode head := fun h => hhead ((Utf8.mem_encode_iff rfl).mp h)
  rw [encode_body_first, Utf8.encode_append]
  exact linesFrom_break (Utf8.encode rest) hbytes

/-- The list of lines holds what the lines of the text hold, in the order of their numbers. The
induction takes one line off the text. -/
theorem getElem?_textLines_iff {i : Nat} {bytes : Bytes} :
    (textLines (Utf8.encode text))[i]? = some bytes ↔
      ∃ l : TextLine, l.In text ∧ l.number = i + 1 ∧ Utf8.encode l.body = bytes := by
  induction hlen : text.length using Nat.strong_induction_on generalizing text i with
  | _ k ih =>
    by_cases htext : '\n' ∈ text
    · obtain ⟨head, rest, rfl, hhead⟩ := List.eq_append_cons_of_mem htext
      have hrest := @ih rest.length (by simp [← hlen]; omega) rest
      rw [textLines_broken hhead]
      simp only [in_iff_of_broken hhead]
      have hcount : (head ++ ['\n']).count '\n' = 1 := by
        simp [List.count_eq_zero_of_not_mem hhead]
      cases i with
      | zero =>
        rw [List.getElem?_cons_zero, Option.some.injEq]
        constructor
        · intro h
          exact ⟨first head, .inl rfl, number_first head, h⟩
        · rintro ⟨l, rfl | ⟨l', _, rfl⟩, hnumber, h⟩
          · exact h
          · rw [number_behind, hcount, number] at hnumber
            omega
      | succ i =>
        rw [List.getElem?_cons_succ, hrest rfl]
        constructor
        · rintro ⟨l, hl, hnumber, h⟩
          refine ⟨l.behind (head ++ ['\n']), .inr ⟨l, hl, rfl⟩, ?_, h⟩
          rw [number_behind, hcount, hnumber, Nat.add_comm]
        · rintro ⟨l, rfl | ⟨l', hl', rfl⟩, hnumber, h⟩
          · rw [number_first] at hnumber
            omega
          · refine ⟨l', hl', ?_, h⟩
            rw [number_behind, hcount] at hnumber
            omega
    · rw [textLines_unbroken htext]
      simp only [in_iff_of_unbroken htext]
      cases text with
      | nil => simp
      | cons c cs => cases i <;> simp [number]

theorem trimmedLine_encode (cs : List Char) : trimmedLine (Utf8.encode cs) = trimChars cs := by
  unfold trimmedLine Utf8.decode
  rw [Utf8.decodeFrom_encode]
  rfl

/-- The lines of a text with their numbers, as they are shown. -/
theorem mem_numbered_iff {n : Nat} {bytes : Bytes} :
    (bytes, n) ∈ (textLines (Utf8.encode text)).zipIdx 1 ↔
      ∃ l : TextLine, l.In text ∧ l.number = n ∧ Utf8.encode l.body = bytes := by
  rw [List.mk_mem_zipIdx_iff_le_and_getElem?_sub, getElem?_textLines_iff]
  constructor
  · rintro ⟨hle, l, hl, hnumber, h⟩
    exact ⟨l, hl, by omega, h⟩
  · rintro ⟨l, hl, rfl, h⟩
    exact ⟨Nat.le_add_left 1 _, l, hl, rfl, h⟩

/-! ## The numbers of the bytes of a line -/

/-- Only the last line may lack a newline. -/
theorem newline_mem_or_of_ends {body ending after : List Char} (h : Ends body ending after) :
    '\n' ∈ ending ∨ ending = [] ∧ after = [] := by
  cases h with
  | newline => simp
  | returned => simp
  | text => simp

/-- In a line with its end, no byte stands behind a newline. -/
theorem newlines_dropLast {body ending after : List Char} (hbody : '\n' ∉ body)
    (h : Ends body ending after) : newlines (Utf8.encode (body ++ ending)).dropLast = 0 := by
  have hnone : ∀ {cs : List Char}, '\n' ∉ cs → newlines (Utf8.encode cs) = 0 := by
    intro cs hcs
    rw [Utf8.newlines_encode, List.count_eq_zero_of_not_mem hcs]
  cases h with
  | newline =>
    rw [Utf8.encode_append]
    show newlines (Utf8.encode body ++ [newline]).dropLast = 0
    rw [List.dropLast_concat, hnone hbody]
  | returned =>
    rw [← List.singleton_append, ← List.append_assoc, Utf8.encode_append]
    show newlines (Utf8.encode (body ++ ['\r']) ++ [newline]).dropLast = 0
    rw [List.dropLast_concat, hnone (by simpa using hbody)]
  | text =>
    rw [List.append_nil]
    apply Nat.le_zero.mp
    rw [← hnone hbody]
    exact newlines_le (List.dropLast_sublist _)

theorem lineOf_eq_one {bytes : Bytes} {d : Nat} (h : newlines bytes.dropLast = 0)
    (hd : d < bytes.length) : lineOf bytes d = 1 := by
  have hle : newlines (bytes.take d) ≤ newlines bytes.dropLast := by
    rw [List.dropLast_eq_take]
    exact newlines_le (List.take_prefix_take_left (by omega)).sublist
  unfold lineOf
  omega

/-- Before a line the numbers are lower. -/
theorem lineOf_lt_number (h : l.In text) {o : Nat} (ho : o < l.start) :
    lineOf (Utf8.encode text) o < l.number := by
  obtain ⟨hbegins, _, after, _, rfl⟩ := h
  rcases hbegins with hbefore | ⟨front, hbefore⟩
  · simp [start, hbefore] at ho
  · have hstart : Utf8.encode (front ++ ['\n']) = Utf8.encode front ++ [newline] := by
      rw [Utf8.encode_append]
      rfl
    have hle : o ≤ (Utf8.encode front).length := by
      rw [start, hbefore, hstart, List.length_append] at ho
      simpa using Nat.le_of_lt_succ ho
    have hline : lineOf (Utf8.encode (l.before ++ l.body ++ l.ending ++ after)) o =
        lineOf (Utf8.encode front) o := by
      simp only [hbefore, List.append_assoc, Utf8.encode_append]
      exact lineOf_append_left _ hle
    have hmost := lineOf_le (Utf8.encode front) o
    rw [Utf8.newlines_encode] at hmost
    rw [hline, number, hbefore, List.count_append]
    simp
    omega

/-- Behind a line the numbers are higher. -/
theorem number_lt_lineOf (h : l.In text) {o : Nat} (hstop : l.stop ≤ o)
    (ho : o < (Utf8.encode text).length) : l.number < lineOf (Utf8.encode text) o := by
  obtain ⟨_, _, after, hends, rfl⟩ := h
  obtain ⟨d, rfl⟩ := Nat.exists_eq_add_of_le hstop
  have hparts : Utf8.encode (l.before ++ l.body ++ l.ending ++ after) =
      Utf8.encode l.before ++ Utf8.encode (l.body ++ l.ending) ++ Utf8.encode after := by
    simp [Utf8.encode_append]
  have hended : '\n' ∈ l.ending := by
    rcases newline_mem_or_of_ends hends with hended | ⟨_, rfl⟩
    · exact hended
    · rw [hparts] at ho
      simp [stop, start] at ho
  rw [hparts, stop, start, lineOf_behind, Utf8.newlines_encode, Utf8.newlines_encode, number]
  have := List.count_pos_iff.mpr hended
  simp only [List.count_append, lineOf]
  omega

/-- The bytes of a line, its end included, are the bytes with its number. -/
theorem lineOf_eq_number_iff (h : l.In text) {o : Nat} (ho : o < (Utf8.encode text).length) :
    lineOf (Utf8.encode text) o = l.number ↔ l.start ≤ o ∧ o < l.stop := by
  constructor
  · intro heq
    constructor
    · by_contra hlt
      have := lineOf_lt_number h (Nat.lt_of_not_le hlt)
      omega
    · by_contra hge
      have := number_lt_lineOf h (Nat.le_of_not_lt hge) ho
      omega
  · rintro ⟨hstart, hstop⟩
    obtain ⟨_, hunbroken, after, hends, rfl⟩ := h
    obtain ⟨d, rfl⟩ := Nat.exists_eq_add_of_le hstart
    have hparts : Utf8.encode (l.before ++ l.body ++ l.ending ++ after) =
        Utf8.encode l.before ++ (Utf8.encode (l.body ++ l.ending) ++ Utf8.encode after) := by
      simp [Utf8.encode_append]
    have hd : d < (Utf8.encode (l.body ++ l.ending)).length := by
      unfold stop at hstop
      omega
    rw [hparts, start, lineOf_append_right, lineOf_append_left _ hd.le,
      lineOf_eq_one (newlines_dropLast hunbroken hends) hd, Utf8.newlines_encode]
    rfl

end TextLine

end AnchoredBlocks
