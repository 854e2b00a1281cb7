-- What the text of a path says. A path seen from a directory has the parts of
-- the directory and then its own, so it leads where it leads from there. The
-- path above a file is the front of its text, and leads to the directory of
-- the file.
import Mathlib.Data.List.DropRight
import AnchoredBlocks.Proofs.Locations

namespace AnchoredBlocks

/-! ## Texts and their parts -/

namespace Path

variable {p : Path}

theorem parts_append_slash (front back : String) :
    (⟨front ++ "/" ++ back⟩ : Path).parts = (⟨front⟩ : Path).parts ++ (⟨back⟩ : Path).parts := by
  have hlist : (front ++ "/" ++ back).toList = front.toList ++ '/' :: back.toList := by simp
  rw [parts_eq, parts_eq, parts_eq, hlist, List.splitOn_append_cons_self, List.map_append]

/-- Behind a slash at the end of a path there is one more part, an empty one. -/
theorem exists_front_of_endsWith_slash (h : p.text.endsWith "/" = true) :
    ∃ front, p = ⟨front ++ "/"⟩ ∧ p.parts = (⟨front⟩ : Path).parts ++ [""] := by
  rw [String.endsWith_eq_endsWith_toSlice, String.Slice.endsWith_string_iff] at h
  obtain ⟨front, hfront⟩ := h
  have htext : p.text = String.ofList front ++ "/" := by
    apply String.toList_injective
    simpa using hfront.symm
  have hp : p = ⟨String.ofList front ++ "/" ++ ""⟩ := by
    rw [String.append_empty]
    exact congrArg Path.mk htext
  refine ⟨String.ofList front, congrArg Path.mk htext, ?_⟩
  rw [hp, parts_append_slash]
  rfl

/-- The parts with slashes between them are the text. -/
theorem intercalate_parts (p : Path) : "/".intercalate p.parts = p.text := by
  apply String.toList_injective
  rw [String.toList_intercalate, parts_eq, List.map_map]
  have hlists : String.toList ∘ String.ofList = id := funext fun _ => String.toList_ofList
  rw [hlists, List.map_id]
  exact List.intercalate_splitOn '/'

theorem parts_intercalate {parts : List String} (hne : parts ≠ [])
    (h : ∀ part ∈ parts, SlashFree part) : (⟨"/".intercalate parts⟩ : Path).parts = parts := by
  have hruns : ∀ run ∈ parts.map String.toList, '/' ∉ run := List.forall_mem_map.mpr h
  rw [parts_eq, String.toList_intercalate]
  show (List.splitOn '/' (['/'].intercalate _)).map _ = _
  rw [List.splitOn_intercalate '/' hruns (by simpa using hne), List.map_map]
  simp

theorem parts_of_slashFree {name : String} (h : SlashFree name) : (⟨name⟩ : Path).parts = [name] := by
  have hparts : (⟨"/".intercalate [name]⟩ : Path).parts = [name] :=
    parts_intercalate (by simp) (by simpa using h)
  rwa [String.intercalate_singleton] at hparts

/-- An absolute path has an empty part before its first slash. -/
theorem isAbsolute_iff_parts : p.isAbsolute = true ↔ ∃ part rest, p.parts = "" :: part :: rest := by
  rw [isAbsolute_iff, parts_eq]
  constructor
  · rintro ⟨back, hback⟩
    obtain ⟨run, runs, hruns⟩ := List.exists_cons_of_ne_nil (List.splitOn_ne_nil '/' back)
    have hsplit := List.splitOn_append_cons_self (a := '/') [] back
    rw [List.splitOn_nil, hruns] at hsplit
    rw [← hback]
    exact ⟨_, _, congrArg (List.map String.ofList) hsplit⟩
  · rintro ⟨part, rest, hparts⟩
    cases hchars : p.text.toList with
    | nil => simp [hchars] at hparts
    | cons c cs =>
      by_cases hc : c = '/'
      · exact hc ▸ List.prefix_append ['/'] cs
      · obtain ⟨run, runs, hruns⟩ := List.exists_cons_of_ne_nil (List.splitOn_ne_nil '/' cs)
        simp [hchars, List.splitOn_cons_eq_if_modifyHead, hc, hruns] at hparts

theorem isAbsolute_of_slashFree {name : String} (h : SlashFree name) :
    (⟨name⟩ : Path).isAbsolute = false := by
  rw [Bool.eq_false_iff]
  intro habsolute
  obtain ⟨rest, hrest⟩ := isAbsolute_iff.mp habsolute
  exact h (hrest ▸ List.mem_cons_self)

theorem text_ne_empty_of_isAbsolute (h : p.isAbsolute = true) : p.text ≠ "" := by
  rw [isAbsolute_iff] at h
  intro hempty
  simp [hempty] at h

/-- The text of a path at one of its slashes. -/
theorem text_eq_of_parts {front back : List String} (h : p.parts = front ++ back)
    (hfront : front ≠ []) (hback : back ≠ []) :
    p.text = "/".intercalate front ++ "/" ++ "/".intercalate back := by
  have hfree : ∀ part ∈ front ++ back, SlashFree part := fun part hpart =>
    slashFree_of_mem_parts (h ▸ hpart)
  have hparts : p.parts =
      (⟨"/".intercalate front ++ "/" ++ "/".intercalate back⟩ : Path).parts := by
    rw [parts_append_slash, h,
      parts_intercalate hfront fun part hpart => hfree part (List.mem_append_left _ hpart),
      parts_intercalate hback fun part hpart => hfree part (List.mem_append_right _ hpart)]
  rw [← intercalate_parts p, hparts, intercalate_parts]

/-! ## The path above a path -/

theorem ofParts_eq {parts : List String} (h : parts ≠ [""]) :
    ofParts parts = ⟨"/".intercalate parts⟩ := by
  unfold ofParts
  split
  · exact absurd rfl h
  · rfl

/-- The path of the parts up to a slash is the front of the text. -/
theorem ofParts_prefix {front back : List String} (h : p.parts = front ++ back)
    (hfront : front ≠ []) (hback : back ≠ []) :
    (ofParts front).text.toList <+: p.text.toList := by
  rw [text_eq_of_parts h hfront hback]
  by_cases hroot : front = [""]
  · rw [hroot]
    exact ⟨("/".intercalate back).toList, by simp [ofParts]⟩
  · rw [ofParts_eq hroot, String.toList_append, String.toList_append, List.append_assoc]
    exact List.prefix_append _ _

/-- The path above a name ends before the idle parts that stand before the name. -/
theorem parent?_of_parts {head last : String} {tail : List String}
    (h : p.parts = head :: (tail ++ [last])) (hlast : isIdle last = false) :
    p.parent? = some (ofParts (head :: tail.rdropWhile isIdle)) := by
  unfold parent?
  rw [h]
  simp [List.rdropWhile, hlast]

/-- A name alone stands in the empty path. -/
theorem parent?_of_single {last : String} (h : p.parts = [last]) (hlast : last ≠ "") :
    p.parent? = some ⟨""⟩ := by
  unfold parent?
  rw [h]
  simp [hlast]

end Path

namespace FileTree

variable {t : FileTree} {p : Path} {l directory : Location}

theorem unusable?_eq_none_iff :
    unusable? p = none ↔ p.text ≠ "" ∧ '\x00' ∉ p.text.toList := by
  unfold unusable?
  rw [String.contains_char_eq]
  by_cases hempty : p.text = ""
  · simp [hempty]
  · by_cases hnul : '\x00' ∈ p.text.toList <;> simp [hempty, hnul]

/-! ## Paths seen from a directory -/

theorem Grounded.name_ne_empty (h : Grounded t l) : ∀ name ∈ l.names, name ≠ "" := by
  induction h with
  | root =>
    intro name hname
    cases hname
  | child _ _ hpart _ _ ih =>
    intro name hname
    rcases List.mem_append.mp hname with hold | hlast
    · exact ih name hold
    · rw [List.mem_singleton.mp hlast]
      rintro rfl
      exact absurd hpart.1 (by decide)

theorem Grounded.not_endsWith_slash (h : Grounded t l) (hne : l.names ≠ []) :
    l.path.text.endsWith "/" = false := by
  rw [Bool.eq_false_iff]
  intro hslash
  obtain ⟨front, _, hparts⟩ := Path.exists_front_of_endsWith_slash hslash
  rw [Location.parts_path hne h.slashFree] at hparts
  have hlast : "" ∈ l.names := by
    have hlast := congrArg List.getLast? hparts
    rw [List.getLast?_concat, List.getLast?_cons, List.getLast?_eq_some_getLast hne] at hlast
    simp only [Option.getD_some, Option.some.injEq] at hlast
    rw [← hlast]
    exact List.getLast_mem hne
  exact h.name_ne_empty "" hlast rfl

/-- A path seen from a grounded location has the names of the location before its own parts. -/
theorem Grounded.parts_join (h : Grounded t l) (hp : p.isAbsolute = false) :
    (l.path.join p).parts = "" :: (l.names ++ p.parts) := by
  unfold Path.join
  rw [hp, if_neg Bool.false_ne_true]
  by_cases hne : l.names = []
  · have hl : l = .root := congrArg Location.mk hne
    have hslash : (Location.root.path.text.isEmpty || Location.root.path.text.endsWith "/") = true := by
      have hend : Location.root.path.text.endsWith "/" = true := by
        rw [String.endsWith_eq_endsWith_toSlice, String.Slice.endsWith_string_iff]
        decide
      rw [hend, Bool.or_true]
    rw [hl, if_pos hslash]
    exact Path.parts_append_slash "" p.text
  · have hempty : l.path.text.isEmpty = false := by
      rw [Bool.eq_false_iff, ne_eq, String.isEmpty_iff]
      exact Path.text_ne_empty_of_isAbsolute (Path.isAbsolute_path l)
    rw [hempty, h.not_endsWith_slash hne, if_neg (by simp), Path.parts_append_slash]
    exact congrArg (· ++ p.parts) (Location.parts_path hne h.slashFree)

/-- The path of the parts up to a slash leads where these parts lead. -/
theorem reach_ofParts {front back : List String} {left : Nat} (hu : unusable? p = none)
    (hsize : p.text.utf8ByteSize < pathLimit) (h : p.parts = front ++ back)
    (hfront : front ≠ []) (hback : back ≠ [])
    (hw : Walk t linkLimit (t.startOf p) front ⟨directory, left⟩) :
    t.reach (Path.ofParts front) = .ok directory := by
  obtain ⟨rest, hrest⟩ := Path.ofParts_prefix h hfront hback
  obtain ⟨hnonempty, hnul⟩ := unusable?_eq_none_iff.mp hu
  have hnul' : '\x00' ∉ (Path.ofParts front).text.toList := fun hmem =>
    hnul (hrest ▸ List.mem_append_left rest hmem)
  have hsize' : (Path.ofParts front).text.utf8ByteSize < pathLimit := by
    have htext : p.text = (Path.ofParts front).text ++ String.ofList rest := by
      apply String.toList_injective
      simpa using hrest.symm
    rw [htext, String.utf8ByteSize_append] at hsize
    omega
  obtain ⟨next, more, rfl⟩ := List.exists_cons_of_ne_nil hback
  by_cases hroot : front = [""]
  · subst hroot
    have habsolute : p.isAbsolute = true := Path.isAbsolute_iff_parts.mpr ⟨_, _, h⟩
    rw [startOf_of_isAbsolute habsolute] at hw
    have hdirectory : directory = .root :=
      location_of_idle_walk hw fun part hpart => List.mem_singleton.mp hpart ▸ rfl
    subst hdirectory
    have hwalk : Walk t linkLimit (t.startOf (Path.ofParts [""])) (Path.ofParts [""]).parts
        ⟨.root, linkLimit⟩ :=
      Grounded.root.walk_path linkLimit
    exact reach_eq_ok_iff.mpr ⟨unusable?_eq_none_iff.mpr ⟨by decide, hnul'⟩, hsize', _, hwalk⟩
  · have hfree : ∀ part ∈ front, Path.SlashFree part := fun part hpart =>
      Path.slashFree_of_mem_parts (h ▸ List.mem_append_left _ hpart)
    have hparts : (Path.ofParts front).parts = front := by
      rw [Path.ofParts_eq hroot, Path.parts_intercalate hfront hfree]
    have habsolute : (Path.ofParts front).isAbsolute = p.isAbsolute := by
      rw [Bool.eq_iff_iff, Path.isAbsolute_iff_parts, Path.isAbsolute_iff_parts, hparts, h]
      match front, hfront, hroot with
      | [first], _, hroot => simp at hroot; simp [hroot]
      | first :: second :: tail, _, _ => simp
    have hempty : (Path.ofParts front).text ≠ "" := by
      intro hempty
      have hsingle : (Path.ofParts front).parts = [""] := by
        rw [Path.parts_eq, hempty]
        rfl
      exact hroot (hparts.symm.trans hsingle)
    refine reach_eq_ok_iff.mpr ⟨unusable?_eq_none_iff.mpr ⟨hempty, hnul'⟩, hsize', left, ?_⟩
    unfold startOf at hw ⊢
    rw [habsolute, hparts]
    exact hw

end FileTree

end AnchoredBlocks
