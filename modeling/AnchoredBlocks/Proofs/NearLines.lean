-- The line that is shown for a missing anchor. Whatever the score is, it is a line of the
-- text, none scores higher, and of those that score as high it is the last. There is none
-- exactly if the anchor is blank or no line scores high enough.
import Mathlib
import AnchoredBlocks.Proofs.NumberedLines

namespace AnchoredBlocks

/-! ## The last of the best lines -/

section Best

variable {σ : Type} [LinearOrder σ] {ls : List (ScoredLine σ)} {best first l : ScoredLine σ}

/-- The line stands in the list, none before it scores higher, and all behind it score lower. -/
def LastBest (ls : List (ScoredLine σ)) (best : ScoredLine σ) : Prop :=
  ∃ before after, ls = before ++ best :: after ∧
    (∀ l ∈ before, l.score ≤ best.score) ∧ ∀ l ∈ after, l.score < best.score

namespace LastBest

theorem mem (h : LastBest ls best) : best ∈ ls := by
  obtain ⟨before, after, rfl, _, _⟩ := h
  simp

theorem score_le (h : LastBest ls best) (hl : l ∈ ls) : l.score ≤ best.score := by
  obtain ⟨before, after, rfl, hbefore, hafter⟩ := h
  rw [List.mem_append, List.mem_cons] at hl
  rcases hl with hl | rfl | hl
  · exact hbefore l hl
  · exact le_refl _
  · exact (hafter l hl).le

/-- A line in front that scores no higher changes nothing. -/
theorem cons (h : LastBest ls best) (hl : l.score ≤ best.score) : LastBest (l :: ls) best := by
  obtain ⟨before, after, rfl, hbefore, hafter⟩ := h
  refine ⟨l :: before, after, rfl, ?_, hafter⟩
  simpa using ⟨hl, hbefore⟩

/-- A line that scores lower than the one in front of it changes nothing. -/
theorem insert (h : LastBest (first :: ls) best) (hl : l.score < first.score) :
    LastBest (first :: l :: ls) best := by
  have hlow : l.score < best.score := hl.trans_le (h.score_le List.mem_cons_self)
  obtain ⟨before, after, heq, hbefore, hafter⟩ := h
  cases before with
  | nil =>
    obtain ⟨rfl, rfl⟩ := List.cons.inj heq
    refine ⟨[], l :: ls, rfl, by simp, ?_⟩
    simpa using ⟨hl, hafter⟩
  | cons b before =>
    obtain ⟨rfl, rfl⟩ := List.cons.inj heq
    refine ⟨first :: l :: before, after, rfl, ?_, hafter⟩
    simp only [List.forall_mem_cons] at hbefore ⊢
    exact ⟨hbefore.1, hlow.le, hbefore.2⟩

/-- In a list in the order of its numbers, a later line scores lower. -/
theorem score_lt (h : LastBest ls best) (hordered : ls.Pairwise (·.line < ·.line)) (hl : l ∈ ls)
    (hlater : best.line < l.line) : l.score < best.score := by
  obtain ⟨before, after, rfl, _, hafter⟩ := h
  rw [List.mem_append, List.mem_cons] at hl
  rcases hl with hl | rfl | hl
  · have := (List.pairwise_append.mp hordered).2.2 l hl best List.mem_cons_self
    omega
  · omega
  · exact hafter l hl

end LastBest

/-- One line after another is held against the best so far. -/
theorem lastBest_foldl (first : ScoredLine σ) (rest : List (ScoredLine σ)) :
    LastBest (first :: rest) (rest.foldl
      (fun best l => if decide (best.score ≤ l.score) then l else best) first) := by
  induction rest generalizing first with
  | nil => exact ⟨[], [], rfl, by simp, by simp⟩
  | cons l rest ih =>
    rw [List.foldl_cons]
    by_cases hle : first.score ≤ l.score
    · simp only [hle, decide_true, if_true]
      exact (ih l).cons (hle.trans ((ih l).score_le List.mem_cons_self))
    · simp only [hle, decide_false, Bool.false_eq_true, if_false]
      exact (ih first).insert (not_le.mp hle)

theorem bestLine_eq_some (h : bestLine (fun a b : σ => decide (a ≤ b)) ls = some best) :
    LastBest ls best := by
  cases ls with
  | nil => simp [bestLine] at h
  | cons first rest =>
    rw [bestLine, Option.some.injEq] at h
    rw [← h]
    exact lastBest_foldl first rest

end Best

theorem bestLine_eq_none_iff {σ : Type} {atMost : σ → σ → Bool} {ls : List (ScoredLine σ)} :
    bestLine atMost ls = none ↔ ls = [] := by
  cases ls <;> simp [bestLine]

/-! ## The lines that score high enough -/

section Scored

variable {σ : Type} {score : List Char → σ} {enough : σ → Bool} {text : List Char}

theorem scored_eq_some_iff {shown : List Char} {n : Nat} {s : ScoredLine σ} :
    (if !shown.isEmpty && enough (score shown) then some (ScoredLine.mk n shown (score shown))
      else none) = some s ↔
    shown ≠ [] ∧ enough (score shown) = true ∧ s = ⟨n, shown, score shown⟩ := by
  rw [Option.ite_none_right_eq_some, Option.some.injEq, @eq_comm _ _ s]
  simp [and_assoc]

theorem exists_score_of_mem {text : Bytes} {s : ScoredLine σ}
    (h : s ∈ scoredLines score enough text) : ∃ shown, s.score = score shown := by
  obtain ⟨_, _, hs⟩ := List.mem_filterMap.mp h
  obtain ⟨_, _, rfl⟩ := scored_eq_some_iff.mp hs
  exact ⟨_, rfl⟩

theorem mem_scoredLines_iff {s : ScoredLine σ} :
    s ∈ scoredLines score enough (Utf8.encode text) ↔ ∃ l : TextLine, l.In text ∧
      l.shown ≠ [] ∧ enough (score l.shown) = true ∧ s = ⟨l.number, l.shown, score l.shown⟩ := by
  unfold scoredLines
  simp only [List.mem_filterMap, Prod.exists, TextLine.mem_numbered_iff, scored_eq_some_iff]
  constructor
  · rintro ⟨_, _, ⟨l, hl, rfl, rfl⟩, hs⟩
    rw [TextLine.trimmedLine_encode] at hs
    exact ⟨l, hl, hs⟩
  · rintro ⟨l, hl, hs⟩
    rw [TextLine.shown, ← TextLine.trimmedLine_encode] at hs
    exact ⟨_, _, ⟨l, hl, rfl, rfl⟩, hs⟩

/-- The lines come in the order of their numbers. -/
theorem pairwise_scoredLines (score : List Char → σ) (enough : σ → Bool) (text : Bytes) :
    (scoredLines score enough text).Pairwise (·.line < ·.line) := by
  unfold scoredLines
  have hnumbers : ((textLines text).zipIdx 1).Pairwise (·.2 < ·.2) := by
    rw [← List.pairwise_map, List.zipIdx_map_snd]
    exact List.pairwise_lt_range' 1
  rw [List.pairwise_filterMap]
  apply hnumbers.imp
  intro p q hlt s hs s' hs'
  rw [(scored_eq_some_iff.mp hs).2.2, (scored_eq_some_iff.mp hs').2.2]
  exact hlt

end Scored

/-! ## The line that is wanted -/

/-- The first line of the anchor that is not blank, as it is shown. -/
def FirstShown (anchor wanted : List Char) : Prop :=
  wanted ≠ [] ∧ ∃ l : TextLine, l.In anchor ∧ l.shown = wanted ∧
    ∀ other : TextLine, other.In anchor → other.number < l.number → other.shown = []

theorem getElem?_shown_iff {text shown : List Char} {i : Nat} :
    ((textLines (Utf8.encode text)).map trimmedLine)[i]? = some shown ↔
      ∃ l : TextLine, l.In text ∧ l.number = i + 1 ∧ l.shown = shown := by
  rw [List.getElem?_map, Option.map_eq_some_iff]
  simp only [TextLine.getElem?_textLines_iff]
  constructor
  · rintro ⟨_, ⟨l, hl, hnumber, rfl⟩, hshown⟩
    exact ⟨l, hl, hnumber, by rw [← hshown, TextLine.trimmedLine_encode, TextLine.shown]⟩
  · rintro ⟨l, hl, hnumber, hshown⟩
    exact ⟨_, ⟨l, hl, hnumber, rfl⟩, by rw [TextLine.trimmedLine_encode, ← hshown, TextLine.shown]⟩

theorem anchorLine?_eq_none_iff {anchor : String} :
    anchorLine? anchor = none ↔ ∀ l : TextLine, l.In anchor.toList → l.shown = [] := by
  unfold anchorLine? Utf8.bytes
  rw [List.find?_eq_none]
  constructor
  · intro h l hl
    have hmem := List.mem_of_getElem? (getElem?_shown_iff.mpr ⟨l, hl, rfl, rfl⟩)
    simpa using h _ hmem
  · intro h shown hmem
    obtain ⟨i, hi⟩ := List.getElem?_of_mem hmem
    obtain ⟨l, hl, _, rfl⟩ := getElem?_shown_iff.mp hi
    simp [h l hl]

theorem anchorLine?_eq_some_iff {anchor : String} {wanted : List Char} :
    anchorLine? anchor = some wanted ↔ FirstShown anchor.toList wanted := by
  unfold anchorLine? Utf8.bytes FirstShown
  rw [List.find?_eq_some_iff_getElem]
  constructor
  · rintro ⟨hwanted, i, hi, hget, hblank⟩
    obtain ⟨l, hl, hnumber, hshown⟩ :=
      getElem?_shown_iff.mp (List.getElem?_eq_some_iff.mpr ⟨hi, hget⟩)
    refine ⟨by simpa using hwanted, l, hl, hshown, ?_⟩
    intro other hother hlt
    have hbefore : other.before.count '\n' < i := by
      rw [hnumber, TextLine.number] at hlt
      omega
    have hget' := getElem?_shown_iff.mpr ⟨other, hother, rfl, rfl⟩
    obtain ⟨_, heq⟩ := List.getElem?_eq_some_iff.mp hget'
    have := hblank _ hbefore
    rw [heq] at this
    simpa using this
  · rintro ⟨hwanted, l, hl, hshown, hblank⟩
    obtain ⟨hi, hget⟩ := List.getElem?_eq_some_iff.mp (getElem?_shown_iff.mpr ⟨l, hl, rfl, hshown⟩)
    refine ⟨by simpa using hwanted, _, hi, hget, ?_⟩
    intro j hj
    obtain ⟨other, hother, hnumber, hshown'⟩ :=
      getElem?_shown_iff.mp (List.getElem?_eq_getElem (hj.trans hi))
    have := hblank other hother (by rw [hnumber, TextLine.number]; omega)
    rw [← hshown', this]
    rfl

/-! ## The nearest line by any score -/

/-- The line nearest to an anchor by a score that has to reach `least`. -/
def nearLineBy {σ : Type} [LinearOrder σ] (score : List Char → List Char → σ) (least : σ)
    (text : Bytes) (anchor : String) : Option (ScoredLine σ) :=
  (anchorLine? anchor).bind fun wanted =>
    bestLine (fun a b => decide (a ≤ b))
      (scoredLines (score wanted) (fun s => decide (least ≤ s)) text)

section Nearest

variable {σ : Type} [LinearOrder σ] {score : List Char → List Char → σ} {least : σ}
  {text anchor : String} {hint : ScoredLine σ}

theorem nearLineBy_eq_none_iff : nearLineBy score least (Utf8.bytes text) anchor = none ↔
    (∀ l : TextLine, l.In anchor.toList → l.shown = []) ∨
      ∃ wanted, FirstShown anchor.toList wanted ∧ ∀ l : TextLine, l.In text.toList →
        l.shown ≠ [] → score wanted l.shown < least := by
  unfold nearLineBy
  cases hwanted : anchorLine? anchor with
  | none => simpa using .inl (anchorLine?_eq_none_iff.mp hwanted)
  | some wanted =>
    have hfirst := anchorLine?_eq_some_iff.mp hwanted
    rw [Option.bind_some, bestLine_eq_none_iff, List.eq_nil_iff_forall_not_mem]
    unfold Utf8.bytes
    simp only [mem_scoredLines_iff, decide_eq_true_eq]
    constructor
    · intro hnone
      refine .inr ⟨wanted, hfirst, ?_⟩
      intro l hl hshown
      by_contra henough
      exact hnone _ ⟨l, hl, hshown, not_lt.mp henough, rfl⟩
    · rintro (hblank | ⟨wanted', hfirst', hlow⟩) s ⟨l, hl, hshown, henough, _⟩
      · obtain ⟨hne, first, hin, rfl, _⟩ := hfirst
        exact hne (hblank first hin)
      · rw [anchorLine?_eq_some_iff.mpr hfirst', Option.some.injEq] at hwanted
        rw [hwanted] at hlow
        exact not_le.mpr (hlow l hl hshown) henough

/-- The line is near enough to what is wanted, no line of the text that is shown is nearer, and
all later ones are less near. -/
structure Nearest (score : List Char → List Char → σ) (least : σ) (text wanted : List Char)
    (l : TextLine) : Prop where
  stands : l.In text
  shown : l.shown ≠ []
  enough : least ≤ score wanted l.shown
  best : ∀ other : TextLine, other.In text → other.shown ≠ [] →
    score wanted other.shown ≤ score wanted l.shown
  last : ∀ other : TextLine, other.In text → other.shown ≠ [] → l.number < other.number →
    score wanted other.shown < score wanted l.shown

theorem exists_nearest (h : nearLineBy score least (Utf8.bytes text) anchor = some hint) :
    ∃ wanted l, FirstShown anchor.toList wanted ∧ Nearest score least text.toList wanted l ∧
      hint = ⟨l.number, l.shown, score wanted l.shown⟩ := by
  unfold nearLineBy at h
  obtain ⟨wanted, hwanted, hbest⟩ := Option.bind_eq_some_iff.mp h
  have hlast := bestLine_eq_some hbest
  obtain ⟨l, hl, hshown, henough, rfl⟩ := mem_scoredLines_iff.mp hlast.mem
  rw [decide_eq_true_eq] at henough
  -- A line that is shown is one of those that were compared, or it was not near enough.
  have hcompared : ∀ other : TextLine, other.In text.toList → other.shown ≠ [] →
      score wanted other.shown < least ∨
        ⟨other.number, other.shown, score wanted other.shown⟩ ∈ scoredLines (score wanted)
          (fun s => decide (least ≤ s)) (Utf8.encode text.toList) := by
    intro other hother hshown'
    apply (lt_or_ge _ _).imp_right
    intro hge
    exact mem_scoredLines_iff.mpr ⟨other, hother, hshown', decide_eq_true hge, rfl⟩
  refine ⟨wanted, l, anchorLine?_eq_some_iff.mp hwanted, ⟨hl, hshown, henough, ?_, ?_⟩, rfl⟩
  · intro other hother hshown'
    rcases hcompared other hother hshown' with hlow | hin
    · exact (hlow.trans_le henough).le
    · exact hlast.score_le hin
  · intro other hother hshown' hlater
    rcases hcompared other hother hshown' with hlow | hin
    · exact hlow.trans_le henough
    · exact hlast.score_lt (pairwise_scoredLines _ _ _) hin hlater

/-- Two lines of which no one is nearer and no one comes later show the same. -/
theorem Nearest.unique {lines wanted : List Char} {l l' : TextLine}
    (h : Nearest score least lines wanted l) (h' : Nearest score least lines wanted l') :
    l.number = l'.number ∧ l.shown = l'.shown := by
  have hnumber : l.number = l'.number := by
    rcases Nat.lt_trichotomy l.number l'.number with hlt | heq | hlt
    · exact absurd (h.last l' h'.stands h'.shown hlt) (not_lt.mpr (h'.best l h.stands h.shown))
    · exact heq
    · exact absurd (h'.last l h.stands h.shown hlt) (not_lt.mpr (h.best l' h'.stands h'.shown))
  have hshown := getElem?_shown_iff.mpr ⟨l, h.stands, rfl, rfl⟩
  have hshown' := getElem?_shown_iff.mpr ⟨l', h'.stands, hnumber.symm, rfl⟩
  exact ⟨hnumber, Option.some.inj (hshown.symm.trans hshown')⟩

theorem nearLineBy_eq_some_iff : nearLineBy score least (Utf8.bytes text) anchor = some hint ↔
    ∃ wanted l, FirstShown anchor.toList wanted ∧ Nearest score least text.toList wanted l ∧
      hint = ⟨l.number, l.shown, score wanted l.shown⟩ := by
  constructor
  · exact exists_nearest
  · rintro ⟨wanted, l, hwanted, hnearest, rfl⟩
    have hanchor := anchorLine?_eq_some_iff.mpr hwanted
    cases hline : nearLineBy score least (Utf8.bytes text) anchor with
    | none =>
      rcases nearLineBy_eq_none_iff.mp hline with hblank | ⟨wanted', hwanted', hlow⟩
      · rw [anchorLine?_eq_none_iff.mpr hblank] at hanchor
        cases hanchor
      · rw [anchorLine?_eq_some_iff.mpr hwanted', Option.some.injEq] at hanchor
        rw [hanchor] at hlow
        exact absurd hnearest.enough (not_le.mpr (hlow l hnearest.stands hnearest.shown))
    | some hint =>
      obtain ⟨wanted', l', hwanted', hnearest', rfl⟩ := exists_nearest hline
      rw [anchorLine?_eq_some_iff.mpr hwanted', Option.some.injEq] at hanchor
      rw [hanchor] at hnearest' ⊢
      obtain ⟨hnumber, hshown⟩ := hnearest.unique hnearest'
      rw [hnumber, hshown]

end Nearest

/-! ## The score of the program -/

/-- The line with its score in other terms. -/
def ScoredLine.rated {σ τ : Type} (rate : σ → τ) (l : ScoredLine σ) : ScoredLine τ :=
  ⟨l.line, l.text, rate l.score⟩

namespace Similarity

/-- The share as a fraction. -/
def share (x : Similarity) : ℚ := if x.whole = 0 then 1 else x.kept / x.whole

/-- No more is kept than there is. -/
def Proper (x : Similarity) : Prop := x.kept ≤ x.whole

theorem proper_between (a b : List Char) : (between a b).Proper := Nat.sub_le _ _

/-- Shares are compared as fractions. -/
theorem atMost_eq {x y : Similarity} (hx : x.Proper) (hy : y.Proper) :
    x.atMost y = decide (x.share ≤ y.share) := by
  obtain ⟨a, m⟩ := x
  obtain ⟨b, n⟩ := y
  simp only [Proper] at hx hy
  unfold atMost share
  by_cases hm : m = 0
  · by_cases hn : n = 0
    · simp [hm, hn]
    · have hpos : (0 : ℚ) < n := Nat.cast_pos.mpr (Nat.pos_of_ne_zero hn)
      simp [hm, hn, le_div_iff₀ hpos]
  · have hpos : (0 : ℚ) < m := Nat.cast_pos.mpr (Nat.pos_of_ne_zero hm)
    by_cases hn : n = 0
    · simp [hm, hn, div_le_iff₀ hpos, hx]
    · have hpos' : (0 : ℚ) < n := Nat.cast_pos.mpr (Nat.pos_of_ne_zero hn)
      simp only [hm, hn, if_false, div_le_div_iff₀ hpos hpos']
      norm_cast

theorem share_near : near.share = 3 / 5 := by
  unfold share near
  norm_num

end Similarity

section Rated

variable {σ τ : Type} {rate : σ → τ}

/-- Where scores compare as their rates do, the best line is the one of the best rate. -/
theorem rated_bestLine [LinearOrder τ] {atMost : σ → σ → Bool} {P : σ → Prop}
    (h : ∀ x y, P x → P y → atMost x y = decide (rate x ≤ rate y)) {ls : List (ScoredLine σ)}
    (hls : ∀ l ∈ ls, P l.score) :
    (bestLine atMost ls).map (·.rated rate) =
      bestLine (fun a b => decide (a ≤ b)) (ls.map (·.rated rate)) := by
  cases ls with
  | nil => rfl
  | cons first rest =>
    simp only [bestLine, List.map_cons, Option.map_some, Option.some.injEq]
    induction rest generalizing first with
    | nil => rfl
    | cons l rest ih =>
      simp only [List.forall_mem_cons] at hls
      obtain ⟨hfirst, hl, hrest⟩ := hls
      rw [List.foldl_cons, List.map_cons, List.foldl_cons, h _ _ hfirst hl]
      by_cases hle : rate first.score ≤ rate l.score
      · simpa [hle, ScoredLine.rated] using ih l (by simpa using ⟨hl, hrest⟩)
      · simpa [hle, ScoredLine.rated] using ih first (by simpa using ⟨hfirst, hrest⟩)

theorem rated_scoredLines {score : List Char → σ} {enough : σ → Bool} {enough' : τ → Bool}
    (h : ∀ shown, enough (score shown) = enough' (rate (score shown))) (text : Bytes) :
    (scoredLines score enough text).map (·.rated rate) =
      scoredLines (fun shown => rate (score shown)) enough' text := by
  unfold scoredLines
  rw [List.map_filterMap]
  congr 1
  funext ⟨line, n⟩
  simp only [h]
  split <;> rfl

end Rated

/-- The line nearest to an anchor is the one with the highest share, from six tenths on. -/
theorem nearLine?_eq (text : Bytes) (anchor : String) :
    (nearLine? text anchor).map (·.rated Similarity.share) =
      nearLineBy (fun a b => (Similarity.between a b).share) (3 / 5) text anchor := by
  unfold nearLine? nearLineBy
  rw [Option.map_bind]
  congr 1
  funext wanted
  have henough : ∀ shown, Similarity.near.atMost (Similarity.between wanted shown) =
      decide (3 / 5 ≤ (Similarity.between wanted shown).share) := by
    intro shown
    have hnear : Similarity.near.Proper := Nat.le_add_right 6 4
    rw [Similarity.atMost_eq hnear (Similarity.proper_between wanted shown),
      Similarity.share_near]
  have hproper : ∀ l ∈ scoredLines (Similarity.between wanted) (Similarity.near.atMost ·) text,
      l.score.Proper := by
    intro l hl
    obtain ⟨shown, hscore⟩ := exists_score_of_mem hl
    rw [hscore]
    exact Similarity.proper_between wanted shown
  rw [Function.comp_apply, rated_bestLine (fun _ _ => Similarity.atMost_eq) hproper]
  exact congrArg _ (rated_scoredLines henough text)

/-! ## The law -/

/-- Under any score there is no line to show exactly if the anchor is blank, or no line scores
high enough against the first line of the anchor that is shown. Otherwise it is the last of the
lines with the highest score, with its number, its text and its score. The bytes of a line, its
end included, are the bytes with its number. The line that the program shows is the one by the
share of characters that are kept. -/
theorem the_nearest_line_is_the_last_of_the_best {σ : Type} [LinearOrder σ]
    (score : List Char → List Char → σ) (least : σ) (text anchor : String) :
    (nearLineBy score least (Utf8.bytes text) anchor = none ↔
      (∀ l : TextLine, l.In anchor.toList → l.shown = []) ∨
        ∃ wanted, FirstShown anchor.toList wanted ∧ ∀ l : TextLine, l.In text.toList →
          l.shown ≠ [] → score wanted l.shown < least) ∧
    (∀ hint, nearLineBy score least (Utf8.bytes text) anchor = some hint ↔
      ∃ wanted l, FirstShown anchor.toList wanted ∧ Nearest score least text.toList wanted l ∧
        hint = ⟨l.number, l.shown, score wanted l.shown⟩) ∧
    (∀ l : TextLine, l.In text.toList → ∀ o < (Utf8.bytes text).length,
      (lineOf (Utf8.bytes text) o = l.number ↔ l.start ≤ o ∧ o < l.stop)) ∧
    (nearLine? (Utf8.bytes text) anchor).map (·.rated Similarity.share) =
      nearLineBy (fun a b => (Similarity.between a b).share) (3 / 5) (Utf8.bytes text) anchor := by
  refine ⟨nearLineBy_eq_none_iff, ?_, ?_, nearLine?_eq _ _⟩
  · intro hint
    exact nearLineBy_eq_some_iff
  · intro l hl o ho
    exact TextLine.lineOf_eq_number_iff hl ho

/-- Two lines that are as near to the anchor, behind a blank one. -/
def keyText : String := "one\r\n\r\n key1\r\nkey2\nend"

theorem nearLine?_keyText : nearLine? (Utf8.bytes keyText) "\n key9\n" =
    some ⟨4, "key2".toList, ⟨3, 4⟩⟩ := by
  cbv

/-- The second of the two is shown, as the fourth line of the text. -/
theorem the_later_key_is_shown :
    nearLine? (Utf8.bytes keyText) "\n key9\n" = some ⟨4, "key2".toList, ⟨3, 4⟩⟩ ∧
    ∃ wanted l, FirstShown "\n key9\n".toList wanted ∧
      Nearest (fun a b => (Similarity.between a b).share) (3 / 5) keyText.toList wanted l ∧
      l.number = 4 ∧ l.shown = "key2".toList ∧
      ∀ o < 22, lineOf (Utf8.bytes keyText) o = 4 ↔ l.start ≤ o ∧ o < l.stop := by
  obtain ⟨_, hsome, hbytes, hown⟩ := the_nearest_line_is_the_last_of_the_best
    (fun a b => (Similarity.between a b).share) (3 / 5) keyText "\n key9\n"
  rw [nearLine?_keyText] at hown
  obtain ⟨wanted, l, hwanted, hnearest, hhint⟩ := (hsome _).mp hown.symm
  have hnumber : l.number = 4 := (congrArg ScoredLine.line hhint).symm
  have hlength : (Utf8.bytes keyText).length = 22 := by decide
  refine ⟨nearLine?_keyText, wanted, l, hwanted, hnearest, hnumber,
    (congrArg ScoredLine.text hhint).symm, ?_⟩
  intro o ho
  rw [← hnumber]
  exact hbytes l hnearest.stands o (by rw [hlength]; exact ho)

end AnchoredBlocks
