-- Sound trees. No name holds a null character, and the current directory is where
-- its path says, unless it was removed. The path of a location is then one more
-- spelling of each path that leads there, and reads the same file.
import AnchoredBlocks.Proofs.PathTexts
import AnchoredBlocks.Proofs.PlannedEdits
import AnchoredBlocks.Proofs.Settling

namespace AnchoredBlocks

namespace Path

variable {p : Path} {c : Char}

theorem mem_splitSlashes_iff (hc : c ≠ '/') (cs : List Char) :
    c ∈ cs ↔ ∃ run ∈ splitSlashes cs, c ∈ run := by
  induction cs with
  | nil => simp [splitSlashes]
  | cons x cs ih =>
    unfold splitSlashes
    split
    · rename_i hx
      simp [hx, hc, ih]
    · split
      · rename_i hruns
        rw [hruns] at ih
        simp [ih]
      · rename_i run runs hruns
        rw [hruns] at ih
        simp [ih, or_assoc]

/-- But for its slashes, a path has the characters of its parts. -/
theorem mem_text_iff (hc : c ≠ '/') : c ∈ p.text.toList ↔ ∃ part ∈ p.parts, c ∈ part.toList := by
  rw [mem_splitSlashes_iff hc]
  simp [parts]

end Path

namespace FileTree

/-! ## Sound trees -/

/-- No name on the way to the location holds a null character. -/
def NulFree (l : Location) : Prop := ∀ name ∈ l.names, '\x00' ∉ name.toList

/-- What is true of every file system: no name holds a null character, and the current
directory goes by plain names through directories, as long as there is one. -/
structure Sound (t : FileTree) : Prop where
  nulFree : ∀ l e, t.entry? l = some e → NulFree l
  current : t.DirectoryAt t.current → Grounded t t.current

variable {t : FileTree} {p : Path} {l : Location}

theorem nulFree_root : NulFree .root := nofun

theorem Sound.nulFree_of_grounded (ht : Sound t) (h : Grounded t l) : NulFree l := by
  cases h with
  | root => exact nulFree_root
  | child _ _ _ _ hplain =>
    obtain ⟨e, he, _⟩ := hplain
    exact ht.nulFree _ e he

theorem sound_of_entries (h : ∀ x ∈ t.entries, NulFree x.1) (hcurrent : Grounded t t.current) :
    Sound t := by
  refine ⟨fun l e he => ?_, fun _ => hcurrent⟩
  unfold entry? at he
  split at he
  · rename_i hroot
    have hl : l = .root := congrArg Location.mk (List.isEmpty_iff.mp hroot)
    exact hl ▸ nulFree_root
  · obtain ⟨before, after, hentries, _⟩ := List.lookup_eq_some_iff.mp he
    exact h (l, e) (by rw [hentries]; simp)

theorem Sound.grounded_startOf (ht : Sound t) (h : t.DirectoryAt (t.startOf p)) :
    Grounded t (t.startOf p) := by
  unfold startOf at h ⊢
  split
  · exact .root
  · rename_i hrelative
    rw [if_neg hrelative] at h
    exact ht.current h

/-- Where a path leads in a sound tree is grounded. -/
theorem Sound.grounded_of_walk (ht : Sound t) {links left : Nat}
    (hw : Walk t links (t.startOf p) p.parts ⟨l, left⟩) : Grounded t l :=
  hw.grounded (ht.grounded_startOf (hw.directoryAt (parts_ne_nil p)))
    fun _ => Path.slashFree_of_mem_parts

/-! ## Spellings -/

/-- The path of a grounded location can be looked up. -/
theorem Grounded.unusable?_path (h : Grounded t l) (hnul : NulFree l) :
    unusable? l.path = none := by
  refine unusable?_eq_none_iff.mpr
    ⟨Path.text_ne_empty_of_isAbsolute (Path.isAbsolute_path l), fun hmem => ?_⟩
  obtain ⟨part, hpart, hmem⟩ := (Path.mem_text_iff (by decide)).mp hmem
  by_cases hne : l.names = []
  · have hl : l = .root := congrArg Location.mk hne
    have hparts : Location.root.path.parts = ["", ""] := by decide
    rw [hl, hparts] at hpart
    simp only [List.mem_cons, List.not_mem_nil, or_false, or_self] at hpart
    simp [hpart] at hmem
  · rw [Location.parts_path hne h.slashFree] at hpart
    rcases List.mem_cons.mp hpart with rfl | hname
    · simp at hmem
    · exact hnul part hname hmem

/-- A path seen from a grounded location is settled from the root, by the names of the location
and its own parts. -/
theorem Grounded.settle_join (h : Grounded t l) (hp : p.isAbsolute = false) (links : Nat) :
    t.settle links (t.startOf (l.path.join p)) (l.path.join p).parts =
      t.settle links .root (l.names ++ p.parts) := by
  rw [startOf_of_isAbsolute (Path.isAbsolute_join (Path.isAbsolute_path l) p), h.parts_join hp,
    settle_idle (directoryAt_root t) rfl]

end FileTree

end AnchoredBlocks
