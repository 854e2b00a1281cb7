-- The laws of locations. What is followed from the root is grounded: it goes by
-- plain names, and nothing but directories stands above it. The path of such a
-- location leads to it and to nothing else.
import AnchoredBlocks.Proofs.FreshFiles

namespace AnchoredBlocks

/-! ## Parts without slashes -/

namespace Path

theorem not_mem_of_mem_splitSlashes {cs run : List Char} (h : run ∈ splitSlashes cs) :
    '/' ∉ run := by
  induction cs generalizing run with
  | nil =>
    rw [splitSlashes, List.mem_singleton] at h
    rw [h]
    exact List.not_mem_nil
  | cons c cs ih =>
    unfold splitSlashes at h
    split at h
    · rcases List.mem_cons.mp h with rfl | h
      · exact List.not_mem_nil
      · exact ih h
    · rename_i hc
      split at h
      · rw [List.mem_singleton.mp h, List.mem_singleton]
        exact Ne.symm hc
      · rename_i first runs hruns
        rw [hruns] at ih
        rcases List.mem_cons.mp h with rfl | h
        · simp only [List.mem_cons, not_or]
          exact ⟨Ne.symm hc, ih List.mem_cons_self⟩
        · exact ih (List.mem_cons_of_mem _ h)

/-- A part between two slashes. -/
def SlashFree (part : String) : Prop := '/' ∉ part.toList

theorem slashFree_of_mem_parts {p : Path} {part : String} (h : part ∈ p.parts) :
    SlashFree part := by
  unfold parts at h
  obtain ⟨run, hrun, rfl⟩ := List.mem_map.mp h
  unfold SlashFree
  rw [String.toList_ofList]
  exact not_mem_of_mem_splitSlashes hrun

/-! ## Absolute paths -/

theorem isAbsolute_iff {p : Path} : p.isAbsolute = true ↔ ['/'] <+: p.text.toList := by
  unfold isAbsolute
  exact String.startsWith_string_iff

theorem isAbsolute_path (l : Location) : l.path.isAbsolute = true := by
  rw [isAbsolute_iff]
  unfold Location.path
  rw [String.toList_append]
  exact List.prefix_append _ _

theorem join_of_isAbsolute {p : Path} (h : p.isAbsolute = true) (directory : Path) :
    directory.join p = p := by
  unfold join
  rw [if_pos h]

theorem isAbsolute_join {directory : Path} (h : directory.isAbsolute = true) (p : Path) :
    (directory.join p).isAbsolute = true := by
  rw [isAbsolute_iff] at h
  unfold join
  split
  · assumption
  · split
    · rw [isAbsolute_iff, String.toList_append]
      exact h.trans (List.prefix_append _ _)
    · rw [isAbsolute_iff, String.toList_append, String.toList_append, List.append_assoc]
      exact h.trans (List.prefix_append _ _)

end Path

/-- The path of a location has its names as parts, behind the empty part of the root. -/
theorem Location.parts_path {l : Location} (hne : l.names ≠ [])
    (h : ∀ name ∈ l.names, Path.SlashFree name) : l.path.parts = "" :: l.names := by
  have hruns : ∀ run ∈ l.names.map String.toList, '/' ∉ run := by
    intro run hrun
    obtain ⟨name, hname, rfl⟩ := List.mem_map.mp hrun
    exact h name hname
  have hsplit : l.path.text.toList.splitOn '/' = [] :: l.names.map String.toList := by
    unfold Location.path
    rw [String.toList_append, String.toList_intercalate]
    show List.splitOn '/' ([] ++ '/' :: _) = _
    rw [List.splitOn_append_cons_self, List.splitOn_nil]
    exact congrArg _ (List.splitOn_intercalate '/' hruns (by simpa using hne))
  rw [Path.parts_eq, hsplit]
  simp

namespace FileTree

variable {t t' : FileTree} {l found : Location} {p : Path}

/-! ## Grounded locations -/

/-- The location goes by plain names through directories, and is no link itself. -/
inductive Grounded (t : FileTree) : Location → Prop
  | root : Grounded t .root
  | child {l : Location} {name : String} : Grounded t l → t.DirectoryAt l → IsName name →
      Path.SlashFree name → t.PlainAt (l.child name) → Grounded t (l.child name)

theorem Grounded.parent (h : Grounded t l) : Grounded t l.parent := by
  cases h with
  | root => exact .root
  | child hl =>
    rw [parent_child]
    exact hl

/-- A walk from a grounded place ends in a grounded place. -/
theorem Walk.grounded {links : Nat} {parts : List String} {a : Arrival}
    (h : Walk t links l parts a) (hl : Grounded t l)
    (hparts : ∀ part ∈ parts, Path.SlashFree part) : Grounded t a.location := by
  induction h with
  | here => exact hl
  | idle _ _ _ ih => exact ih hl fun part hpart => hparts part (List.mem_cons_of_mem _ hpart)
  | up _ _ ih => exact ih hl.parent fun part hpart => hparts part (List.mem_cons_of_mem _ hpart)
  | into hd hname hplain _ ih =>
    exact ih (.child hl hd hname (hparts _ List.mem_cons_self) hplain)
      fun part hpart => hparts part (List.mem_cons_of_mem _ hpart)
  | @through _ l _ _ _ target hd hname he _ ih =>
    have hstart : Grounded t (linkStart l target) := by
      unfold linkStart
      split
      · exact .root
      · exact hl
    refine ih hstart fun part hpart => ?_
    rcases List.mem_append.mp hpart with htarget | hrest
    · exact Path.slashFree_of_mem_parts htarget
    · exact hparts part (List.mem_cons_of_mem _ hrest)

theorem Grounded.slashFree (h : Grounded t l) : ∀ name ∈ l.names, Path.SlashFree name := by
  induction h with
  | root =>
    intro name hname
    cases hname
  | child _ _ _ hslash _ ih =>
    intro name hname
    rcases List.mem_append.mp hname with hold | hlast
    · exact ih name hold
    · rw [List.mem_singleton.mp hlast]
      exact hslash

/-- The names of a grounded location lead to it without a link. -/
theorem Grounded.walk (h : Grounded t l) (links : Nat) :
    Walk t links .root l.names ⟨l, links⟩ := by
  induction h with
  | root => exact .here _ _
  | child _ hd hname _ hplain ih => exact ih.append (.into hd hname hplain (.here _ _))

/-- Nothing but directories stands above a grounded location. -/
theorem Grounded.directoryAt_above (h : Grounded t l) {above : Location} (hw : l.Within above)
    (hne : above ≠ l) : t.DirectoryAt above := by
  induction h with
  | root =>
    have hroot : above.names = [] := List.prefix_nil.mp hw
    exact absurd (congrArg Location.mk hroot) hne
  | @child l name _ hd _ _ _ ih =>
    rcases List.prefix_concat_iff.mp hw with heq | habove
    · exact absurd (congrArg Location.mk heq) hne
    · by_cases hl : above = l
      · rw [hl]
        exact hd
      · exact ih habove hl

/-! ## The path of a grounded location -/

theorem startOf_of_isAbsolute (h : p.isAbsolute = true) : t.startOf p = .root := by
  unfold startOf
  rw [if_pos h]

theorem startOf_of_relative (h : p.isAbsolute = false) : t.startOf p = t.current := by
  unfold startOf
  rw [h, if_neg Bool.false_ne_true]

theorem directoryAt_startOf (h : p.isAbsolute = true) : t.DirectoryAt (t.startOf p) := by
  rw [startOf_of_isAbsolute h]
  exact directoryAt_root t

/-- The path of a grounded location leads there without a link. -/
theorem Grounded.walk_path (h : Grounded t l) (links : Nat) :
    Walk t links (t.startOf l.path) l.path.parts ⟨l, links⟩ := by
  rw [startOf_of_isAbsolute (Path.isAbsolute_path l)]
  by_cases hne : l.names = []
  · have hl : l = .root := congrArg Location.mk hne
    have hparts : Location.root.path.parts = ["", ""] := by decide
    rw [hl, hparts]
    exact .idle (directoryAt_root t) rfl (.idle (directoryAt_root t) rfl (.here _ _))
  · rw [Location.parts_path hne h.slashFree]
    exact .idle (directoryAt_root t) rfl (h.walk links)

theorem Grounded.eq_of_reach_path (h : Grounded t l) (hr : t.reach l.path = .ok found) :
    found = l := by
  obtain ⟨_, _, left, hw⟩ := reach_eq_ok_iff.mp hr
  exact hw.location_unique (h.walk_path linkLimit)

/-- What is read and replaced under the path of a grounded location is the file at that
location. -/
theorem Grounded.replaceFile_path {old fresh : Bytes} (h : Grounded t l)
    (hread : t.read l.path = .ok old) (hwrite : t.replaceFile l.path fresh = .ok t') :
    (∃ mode, t.entry? l = some (.file old mode)) ∧ ∃ mode, t' = t.put l (.file fresh mode) := by
  obtain ⟨found, mode, hr, he⟩ := read_eq_ok_iff.mp hread
  obtain rfl := h.eq_of_reach_path hr
  obtain ⟨name, hn, _, rfl⟩ := replaceFile_eq_ok_iff.mp hwrite
  obtain ⟨before, last, directory, left, _, hparts, _, rfl, _, hbefore, _⟩ :=
    exists_child_of_nameOf hr he hn
  refine ⟨⟨mode, he⟩, _, congrArg (fun name => t.put name _) ?_⟩
  cases h with
  | root => cases he
  | @child above name habove hd hname hslash hplain =>
    have hg : Grounded t (above.child name) := .child habove hd hname hslash hplain
    rw [Location.parts_path (child_names_ne_nil _ _) hg.slashFree] at hparts
    have hsame : ("" :: above.names) ++ [name] = before ++ [last] := hparts
    obtain ⟨hnames, hlast⟩ := List.append_inj' hsame rfl
    rw [startOf_of_isAbsolute (Path.isAbsolute_path _), ← hnames] at hbefore
    have hidle : Walk t linkLimit .root ("" :: above.names) ⟨above, linkLimit⟩ :=
      .idle (directoryAt_root t) rfl (habove.walk linkLimit)
    have hdirectory : directory = above := hbefore.location_unique hidle
    rw [hdirectory, List.singleton_inj.mp hlast]

end FileTree

end AnchoredBlocks
