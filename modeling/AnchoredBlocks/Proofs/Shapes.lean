-- The shape of a tree is all of it but what its files hold. A fresh file in
-- place of a file keeps the shape, and trees of one shape have the same walks.
import AnchoredBlocks.Proofs.Settling

namespace AnchoredBlocks.FileTree

variable {t tree tree' : FileTree} {l : Location}

/-- A file stands at the location. -/
def FileAt (t : FileTree) (l : Location) : Prop :=
  ∃ content mode, t.entry? l = some (.file content mode)

theorem FileAt.not_directoryAt (h : t.FileAt l) : ¬ t.DirectoryAt l := by
  obtain ⟨content, mode, h⟩ := h
  exact not_directoryAt_of_file h

theorem FileAt.names_ne_nil (h : t.FileAt l) : l.names ≠ [] := by
  intro hroot
  have hl : l = .root := congrArg Location.mk hroot
  exact h.not_directoryAt (hl ▸ directoryAt_root t)

/-- The trees agree on everything but what files hold. -/
structure SameShape (t tree : FileTree) : Prop where
  current : tree.current = t.current
  entries : ∀ l, tree.entry? l = t.entry? l ∨ t.FileAt l ∧ tree.FileAt l

namespace SameShape

theorem refl (t : FileTree) : SameShape t t := ⟨rfl, fun _ => .inl rfl⟩

theorem symm (h : SameShape t tree) : SameShape tree t := by
  refine ⟨h.current.symm, fun l => ?_⟩
  rcases h.entries l with heq | ⟨hold, hnew⟩
  · exact .inl heq.symm
  · exact .inr ⟨hnew, hold⟩

theorem fileAt (h : SameShape t tree) (hl : t.FileAt l) : tree.FileAt l := by
  rcases h.entries l with heq | ⟨_, hnew⟩
  · obtain ⟨content, mode, hl⟩ := hl
    exact ⟨content, mode, heq.trans hl⟩
  · exact hnew

theorem trans (h : SameShape t tree) (h' : SameShape tree tree') : SameShape t tree' := by
  refine ⟨h'.current.trans h.current, fun l => ?_⟩
  rcases h'.entries l with heq' | ⟨hmid, hnew⟩
  · rcases h.entries l with heq | ⟨hold, _⟩
    · exact .inl (heq'.trans heq)
    · exact .inr ⟨hold, h'.fileAt (h.fileAt hold)⟩
  · exact .inr ⟨h.symm.fileAt hmid, hnew⟩

/-- What is no file is the same entry in both trees. -/
theorem entry?_of_not_fileAt (h : SameShape t tree) (hl : ¬ t.FileAt l) :
    tree.entry? l = t.entry? l := by
  rcases h.entries l with heq | ⟨hold, _⟩
  · exact heq
  · exact absurd hold hl

theorem directoryAt (h : SameShape t tree) (hl : t.DirectoryAt l) : tree.DirectoryAt l := by
  have hfile : ¬ t.FileAt l := fun hfile => hfile.not_directoryAt hl
  obtain ⟨mode, hl⟩ := hl
  exact ⟨mode, (h.entry?_of_not_fileAt hfile).trans hl⟩

theorem link (h : SameShape t tree) {target : Path} (hl : t.entry? l = some (.link target)) :
    tree.entry? l = some (.link target) := by
  refine (h.entry?_of_not_fileAt ?_).trans hl
  rintro ⟨content, mode, hfile⟩
  rw [hl] at hfile
  cases hfile

theorem plainAt (h : SameShape t tree) (hl : t.PlainAt l) : tree.PlainAt l := by
  rcases h.entries l with heq | ⟨_, content, mode, hnew⟩
  · obtain ⟨e, he, hlink⟩ := hl
    exact ⟨e, heq.trans he, hlink⟩
  · exact ⟨_, hnew, fun _ => Entry.noConfusion⟩

theorem walk (h : SameShape t tree) {links : Nat} {parts : List String} {a : Arrival}
    (hw : Walk t links l parts a) : Walk tree links l parts a := by
  induction hw with
  | here => exact .here _ _
  | idle hd hidle _ ih => exact .idle (h.directoryAt hd) hidle ih
  | up hd _ ih => exact .up (h.directoryAt hd) ih
  | into hd hname hplain _ ih => exact .into (h.directoryAt hd) hname (h.plainAt hplain) ih
  | through hd hname he _ ih => exact .through (h.directoryAt hd) hname (h.link he) ih

/-- In trees of one shape, the same paths are asked for. -/
theorem asks (h : SameShape t tree) {links : Nat} {parts : List String} {p : Path}
    (hp : Asks t links l parts p) : Asks tree links l parts p := by
  induction hp with
  | place hd hname => exact .place (h.directoryAt hd) hname
  | again hd hname hplain hneed => exact .again (h.directoryAt hd) hname (h.plainAt hplain) hneed
  | idle hd hidle _ ih => exact .idle (h.directoryAt hd) hidle ih
  | up hd _ ih => exact .up (h.directoryAt hd) ih
  | into hd hname hplain _ ih => exact .into (h.directoryAt hd) hname (h.plainAt hplain) ih
  | through hd hname he _ ih => exact .through (h.directoryAt hd) hname (h.link he) ih

theorem startOf (h : SameShape t tree) (p : Path) : tree.startOf p = t.startOf p := by
  unfold FileTree.startOf
  rw [h.current]

theorem resolve_eq_ok (h : SameShape t tree) {q : Path} (hq : t.resolve q = .ok l) :
    tree.resolve q = .ok l := by
  obtain ⟨hu, ⟨left, hw⟩, hshort⟩ := resolve_eq_ok_iff.mp hq
  unfold AsksFor at hshort
  rw [← h.startOf] at hw hshort
  refine resolve_eq_ok_iff.mpr ⟨hu, ⟨left, h.walk hw⟩, ?_⟩
  intro p hp
  exact hshort p (h.symm.asks hp)

theorem grounded (h : SameShape t tree) (hl : Grounded t l) : Grounded tree l := by
  induction hl with
  | root => exact .root
  | child _ hd hname hslash hplain ih =>
    exact .child ih (h.directoryAt hd) hname hslash (h.plainAt hplain)

/-- A fresh file in place of a file keeps the shape. -/
theorem put (hl : t.FileAt l) (content : Bytes) (mode : Nat) :
    SameShape t (t.put l (.file content mode)) := by
  refine ⟨rfl, fun k => ?_⟩
  by_cases hk : k = l
  · rw [hk]
    exact .inr ⟨hl, content, mode, entry?_put_self _ hl.names_ne_nil⟩
  · exact .inl (entry?_put_of_ne _ hk)

end SameShape

end AnchoredBlocks.FileTree
