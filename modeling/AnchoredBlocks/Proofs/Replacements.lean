-- What is found after a replacement. A fresh text that is a block itself is
-- found again in the place of the old one, unless an earlier anchor has come up
-- at the seam in front of it. Then a chain of such replacements leaves nothing
-- behind but the last of them.
import AnchoredBlocks.Proofs.Surroundings

namespace AnchoredBlocks.Markers

variable {m : Markers} {text front back fresh last : Bytes} {chain : List Bytes} {span : Span}
  {a : Nat}

theorem replace_of_find (h : m.find text = .ok span) (fresh : Bytes) :
    m.replace text fresh = .ok (text.take span.start ++ fresh ++ text.drop span.stop) := by
  rw [replace, h]
  rfl

/-- The block may be put in its own place. -/
theorem replace_block (h : m.find text = .ok span) :
    m.replace text (span.block text) = .ok text := by
  rw [replace_of_find h, (find_split h).1]

/-! ## The seam in front of a replacement -/

/-- The old and the fresh text agree up to the end of the start marker. The old one has no
early anchor, so an early anchor in the fresh one reaches further. -/
theorem start_lt_of_early_anchor (h : m.find text = .ok span)
    (hfresh : m.find fresh = .ok ⟨0, fresh.length, a⟩) {i : Nat}
    (hi : i ∈ m.anchorPlaces (text.take span.start ++ fresh ++ text.drop span.stop))
    (hlt : i < span.start) :
    span.start + (Utf8.bytes m.start).length < i + (Utf8.bytes m.anchor).length := by
  obtain ⟨_, hfront, _⟩ := find_split h
  obtain ⟨_, _, hs, _⟩ := find_eq_ok_iff.mp h
  obtain ⟨_, _, hs', e, he, hend⟩ := find_eq_ok_mk_iff.mp hfresh
  have hstart := hs.1.1
  have hstart' : OccursAt (Utf8.bytes m.start)
      (text.take span.start ++ fresh ++ text.drop span.stop) span.start := by
    have := (occursAt_between (text.take span.start) (text.drop span.stop)
      hs'.1.1.stop_le).mpr hs'.1.1
    rwa [hfront] at this
  have hsame : (text.take span.start ++ fresh ++ text.drop span.stop).take
      (span.start + (Utf8.bytes m.start).length) =
      text.take (span.start + (Utf8.bytes m.start).length) := by
    rw [hstart.take_stop, hstart'.take_stop, List.append_assoc]
    congr 1
    exact List.take_left' hfront
  by_contra hle
  have hcut := (occursAt_take hstart'.stop_le).mpr ⟨hi, Nat.le_of_not_lt hle⟩
  rw [hsame] at hcut
  exact Nat.not_le_of_lt hlt (find_noAnchorBefore h i ((occursAt_take hstart.stop_le).mp hcut).1)

/-- A fresh block is found again, and all of it is extracted, exactly if no anchor comes up
before it. Only an anchor longer than the start marker by two bytes or more can do that: it
begins before the block and reaches past the start marker. -/
theorem a_fresh_block_is_found_in_place_of_the_old (h : m.find text = .ok span)
    (hfresh : m.find fresh = .ok ⟨0, fresh.length, a⟩) : ∃ patched,
    m.replace text fresh = .ok patched ∧
    (m.find patched = .ok ⟨span.start, span.start + fresh.length, span.start + a⟩ ↔
      m.NoAnchorBefore patched span.start) ∧
    (m.NoAnchorBefore patched span.start → m.extract patched = .ok fresh) ∧
    (∀ i ∈ m.anchorPlaces patched, i < span.start →
      span.start + (Utf8.bytes m.start).length < i + (Utf8.bytes m.anchor).length) ∧
    ((Utf8.bytes m.anchor).length ≤ (Utf8.bytes m.start).length + 1 →
      m.find patched = .ok ⟨span.start, span.start + fresh.length, span.start + a⟩ ∧
        m.extract patched = .ok fresh) := by
  obtain ⟨_, hfront, _⟩ := find_split h
  have hreplace := replace_of_find h fresh
  have hearly : ∀ i ∈ m.anchorPlaces (text.take span.start ++ fresh ++ text.drop span.stop),
      i < span.start →
        span.start + (Utf8.bytes m.start).length < i + (Utf8.bytes m.anchor).length := by
    intro i hi hlt
    exact start_lt_of_early_anchor h hfresh hi hlt
  generalize text.take span.start = front at hfront hreplace hearly
  generalize text.drop span.stop = back at hreplace hearly
  rw [← hfront] at hearly ⊢
  have hfound (hfirst : m.NoAnchorBefore (front ++ fresh ++ back) front.length) :=
    find_between hfresh hfirst
  refine ⟨_, hreplace, ⟨find_noAnchorBefore, hfound⟩, ?_, hearly, ?_⟩
  · intro hfirst
    exact extract_between (hfound hfirst)
  · intro hshort
    have hfirst : m.NoAnchorBefore (front ++ fresh ++ back) front.length := by
      intro i hi
      by_contra hlt
      have := hearly i hi (Nat.lt_of_not_le hlt)
      omega
    exact ⟨hfound hfirst, extract_between (hfound hfirst)⟩

theorem a_fresh_block_with_two_keys_is_found :
    keyMarkers.find (Utf8.bytes "k <k key k> e") = .ok ⟨2, 11, 5⟩ ∧
    keyMarkers.find (Utf8.bytes "<k a key key k>") = .ok ⟨0, 15, 5⟩ ∧
    ∃ patched, keyMarkers.replace (Utf8.bytes "k <k key k> e") (Utf8.bytes "<k a key key k>") =
        .ok patched ∧
      keyMarkers.find patched = .ok ⟨2, 17, 7⟩ ∧
      keyMarkers.extract patched = .ok (Utf8.bytes "<k a key key k>") := by
  have htext : keyMarkers.find (Utf8.bytes "k <k key k> e") = .ok ⟨2, 11, 5⟩ := by decide
  have hfresh : keyMarkers.find (Utf8.bytes "<k a key key k>") = .ok ⟨0, 15, 5⟩ := by decide
  obtain ⟨patched, hpatched, _, _, _, hshort⟩ :=
    a_fresh_block_is_found_in_place_of_the_old htext hfresh
  exact ⟨htext, hfresh, patched, hpatched, hshort (by decide)⟩

/-- A longer anchor can come up at the seam. It then has no start marker before it. -/
example :
    let m : Markers := ⟨"x<a", "<", ">"⟩
    m.find (Utf8.bytes "x<_x<a>") = .ok ⟨1, 7, 3⟩ ∧
    m.find (Utf8.bytes "<ax<a>") = .ok ⟨0, 6, 2⟩ ∧
    m.replace (Utf8.bytes "x<_x<a>") (Utf8.bytes "<ax<a>") = .ok (Utf8.bytes "x<ax<a>") ∧
    m.find (Utf8.bytes "x<ax<a>") = .error (.noStart "<" 1) := by decide

/-! ## Chains of replacements -/

/-- Puts one text after another in place of the block, each into what the one before has
left. -/
def replaceEach (m : Markers) (text : Bytes) : List Bytes → Except SearchFailure Bytes
  | [] => .ok text
  | fresh :: later => (m.replace text fresh).bind fun patched => m.replaceEach patched later

theorem replaceEach_append (text : Bytes) (chain later : List Bytes) :
    m.replaceEach text (chain ++ later) =
      (m.replaceEach text chain).bind fun patched => m.replaceEach patched later := by
  induction chain generalizing text with
  | nil => rfl
  | cons fresh chain ih =>
    rw [List.cons_append, replaceEach, replaceEach]
    cases m.replace text fresh with
    | error failure => rfl
    | ok patched => exact ih patched

/-- The block that is found in the text stands between the two texts. -/
def Framed (m : Markers) (front back text : Bytes) : Prop :=
  ∃ block a, text = front ++ block ++ back ∧
    m.find text = .ok ⟨front.length, front.length + block.length, a⟩

/-- A block by itself that brings up no earlier anchor behind the text. -/
def Follows (m : Markers) (front fresh : Bytes) : Prop :=
  (∃ a, m.find fresh = .ok ⟨0, fresh.length, a⟩) ∧ m.NoAnchorBefore (front ++ fresh) front.length

theorem framed_of_find (h : m.find text = .ok span) :
    m.Framed (text.take span.start) (text.drop span.stop) text := by
  obtain ⟨hsplit, hfront, hstop⟩ := find_split h
  exact ⟨span.block text, span.anchor, hsplit.symm, by rw [hfront, hstop, h]⟩

theorem Framed.replace (h : m.Framed front back text) (fresh : Bytes) :
    m.replace text fresh = .ok (front ++ fresh ++ back) := by
  obtain ⟨block, a, rfl, hfind⟩ := h
  rw [replace_of_find hfind, List.append_assoc front block, List.take_left,
    ← List.append_assoc front block, ← List.length_append, List.drop_left]

/-- The frame stays when a block by itself is put into it. -/
theorem Follows.framed (h : m.Follows front fresh) (back : Bytes) :
    m.Framed front back (front ++ fresh ++ back) := by
  obtain ⟨⟨a, hfresh⟩, hfirst⟩ := h
  have hbounds := find_bounds hfresh
  have hlen : front.length + (Utf8.bytes m.anchor).length ≤ (front ++ fresh).length := by
    simp only at hbounds
    rw [List.length_append]
    omega
  exact ⟨fresh, front.length + a, rfl, find_between hfresh (hfirst.append hlen back)⟩

/-- The frame stays over a chain, so what comes last is put into the frame of the first text. -/
theorem Framed.replaceEach (h : m.Framed front back text)
    (hchain : ∀ fresh ∈ chain, m.Follows front fresh) (last : Bytes) :
    m.replaceEach text (chain ++ [last]) = .ok (front ++ last ++ back) := by
  induction chain generalizing text with
  | nil =>
    rw [List.nil_append, Markers.replaceEach, h.replace last]
    rfl
  | cons fresh chain ih =>
    rw [List.cons_append, Markers.replaceEach, h.replace fresh]
    apply ih ((hchain fresh List.mem_cons_self).framed back)
    intro r hr
    exact hchain r (List.mem_cons_of_mem _ hr)

/-- Of a chain of replacements only the last one remains, if those before it are blocks by
themselves that bring up no anchor behind the text in front of the block. No step of the
chain fails. A chain that ends with the block of the first text restores that text. -/
theorem only_the_last_of_a_chain_remains (h : m.find text = .ok span) (chain : List Bytes)
    (hchain : ∀ fresh ∈ chain, m.Follows (text.take span.start) fresh) (last : Bytes) :
    (∀ done later, chain ++ [last] = done ++ later → ∃ out, m.replaceEach text done = .ok out) ∧
    m.replaceEach text (chain ++ [last]) = m.replace text last ∧
    m.replace text last = .ok (text.take span.start ++ last ++ text.drop span.stop) ∧
    m.extract text = .ok (span.block text) ∧
    m.replace text (span.block text) = .ok text ∧
    m.replaceEach text (chain ++ [span.block text]) = .ok text := by
  have hframed := framed_of_find h
  have hlast := hframed.replaceEach hchain last
  refine ⟨?_, hlast.trans (hframed.replace last).symm, replace_of_find h last,
    extract_of_find h, replace_block h, ?_⟩
  · intro done later hsplit
    rw [hsplit, replaceEach_append] at hlast
    cases hdone : m.replaceEach text done with
    | error failure =>
      rw [hdone] at hlast
      cases hlast
    | ok out => exact ⟨out, rfl⟩
  · rw [hframed.replaceEach hchain, (find_split h).1]

theorem a_chain_of_keys_is_undone :
    keyMarkers.find (Utf8.bytes "k <k key k> e") = .ok ⟨2, 11, 5⟩ ∧
    (∀ fresh ∈ [Utf8.bytes "<k a key key k>", Utf8.bytes "<k key <k k>"],
      keyMarkers.Follows ((Utf8.bytes "k <k key k> e").take 2) fresh) ∧
    keyMarkers.replaceEach (Utf8.bytes "k <k key k> e")
        [Utf8.bytes "<k a key key k>", Utf8.bytes "<k key <k k>", Utf8.bytes "<k key k>"] =
      .ok (Utf8.bytes "k <k key k> e") := by
  have htext : keyMarkers.find (Utf8.bytes "k <k key k> e") = .ok ⟨2, 11, 5⟩ := by decide
  have hchain : ∀ fresh ∈ [Utf8.bytes "<k a key key k>", Utf8.bytes "<k key <k k>"],
      keyMarkers.Follows ((Utf8.bytes "k <k key k> e").take 2) fresh := by
    intro fresh hfresh
    rcases List.mem_cons.mp hfresh with rfl | hfresh
    · exact ⟨⟨5, by decide⟩, by decide⟩
    · rw [List.mem_singleton.mp hfresh]
      exact ⟨⟨3, by decide⟩, by decide⟩
  obtain ⟨_, _, _, _, _, hback⟩ := only_the_last_of_a_chain_remains htext
    [Utf8.bytes "<k a key key k>", Utf8.bytes "<k key <k k>"] hchain []
  exact ⟨htext, hchain, hback⟩

end AnchoredBlocks.Markers
