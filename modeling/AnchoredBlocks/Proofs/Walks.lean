-- The laws of following a path. A walk is a relation with one case for each
-- kind of part, and `follow` finds exactly the walks. A file put in place of
-- what leads to a file stays out of the way of every walk to a directory.
import AnchoredBlocks.FileTree

namespace AnchoredBlocks.FileTree

variable {t : FileTree}

/-! ## Entries -/

/-- A directory stands at the location. -/
def DirectoryAt (t : FileTree) (l : Location) : Prop :=
  ∃ mode, t.entry? l = some (.directory mode)

/-- A file or a directory stands at the location. -/
def PlainAt (t : FileTree) (l : Location) : Prop :=
  ∃ e, t.entry? l = some e ∧ ∀ target, e ≠ .link target

theorem DirectoryAt.plainAt {l : Location} (h : t.DirectoryAt l) : t.PlainAt l := by
  obtain ⟨mode, h⟩ := h
  exact ⟨_, h, fun _ => Entry.noConfusion⟩

theorem directoryAt_root (t : FileTree) : t.DirectoryAt .root := ⟨_, rfl⟩

theorem child_names_ne_nil (l : Location) (name : String) : (l.child name).names ≠ [] := by
  simp [Location.child]

theorem entry?_put_self {l : Location} (e : Entry) (h : l.names ≠ []) :
    entry? (t.put l e) l = some e := by
  simp [put, entry?, h]

theorem lookup_filter_of_ne {l k : Location} (h : k ≠ l) (xs : List (Location × Entry)) :
    (xs.filter fun x => x.1 ≠ l).lookup k = xs.lookup k := by
  induction xs with
  | nil => rfl
  | cons x xs ih =>
    obtain ⟨m, e⟩ := x
    by_cases hm : m = l
    · have hkm : (k == m) = false := beq_false_of_ne (hm ▸ h)
      rw [List.filter_cons_of_neg (by simpa using hm), ih, List.lookup_cons, hkm]
    · rw [List.filter_cons_of_pos (by simpa using hm), List.lookup_cons, List.lookup_cons, ih]

theorem entry?_put_of_ne {l k : Location} (e : Entry) (h : k ≠ l) :
    entry? (t.put l e) k = t.entry? k := by
  have hkl : (k == l) = false := beq_false_of_ne h
  unfold entry? put
  simp only [List.lookup_cons, hkl, lookup_filter_of_ne h]

/-! ## Walks -/

/-- A part that is looked up in a directory. -/
def IsName (part : String) : Prop :=
  Path.isIdle part = false ∧ part ≠ ".." ∧ part.utf8ByteSize ≤ nameLimit

/-- Where the target of a link is followed from, when the link stands in the directory. -/
def linkStart (l : Location) (target : Path) : Location :=
  if target.isAbsolute then .root else l

/-- From a location, through at most so many links, the parts lead to the arrival. -/
inductive Walk (t : FileTree) : Nat → Location → List String → Arrival → Prop
  | here (links : Nat) (l : Location) : Walk t links l [] ⟨l, links⟩
  | idle {links : Nat} {l : Location} {part : String} {rest : List String} {a : Arrival} :
      t.DirectoryAt l → Path.isIdle part = true → Walk t links l rest a →
      Walk t links l (part :: rest) a
  | up {links : Nat} {l : Location} {rest : List String} {a : Arrival} :
      t.DirectoryAt l → Walk t links l.parent rest a → Walk t links l (".." :: rest) a
  | into {links : Nat} {l : Location} {part : String} {rest : List String} {a : Arrival} :
      t.DirectoryAt l → IsName part → t.PlainAt (l.child part) →
      Walk t links (l.child part) rest a → Walk t links l (part :: rest) a
  | through {links : Nat} {l : Location} {part : String} {rest : List String} {a : Arrival}
      {target : Path} :
      t.DirectoryAt l → IsName part → t.entry? (l.child part) = some (.link target) →
      Walk t links (linkStart l target) (target.parts ++ rest) a →
      Walk t (links + 1) l (part :: rest) a

/-- What is found by following is a walk. -/
theorem walk_of_follow {links : Nat} {l : Location} {parts : List String} {a : Arrival}
    (h : t.follow links l parts = .ok a) : Walk t links l parts a := by
  fun_induction follow t links l parts with
  | case1 => cases h; exact .here _ _
  | case2 links l part rest mode hl hidle ih => exact .idle ⟨_, hl⟩ hidle (ih h)
  | case3 links l rest mode hl hidle ih => exact .up ⟨_, hl⟩ (ih h)
  | case4 => cases h
  | case5 => cases h
  | case6 => cases h
  | case7 l part rest mode hl hidle hup hlong target hc left ih =>
    exact .through ⟨_, hl⟩ ⟨by simpa using hidle, hup, by omega⟩ hc (ih h)
  | case8 links l part rest mode hl hidle hup hlong e hlink hc ih =>
    exact .into ⟨_, hl⟩ ⟨by simpa using hidle, hup, by omega⟩ ⟨_, hc, hlink⟩ (ih h)
  | case9 => cases h
  | case10 => cases h

/-- Behind a walk, following goes on from where the walk has arrived. -/
theorem Walk.follow_append {links : Nat} {l : Location} {parts : List String} {a : Arrival}
    (h : Walk t links l parts a) (rest : List String) :
    t.follow links l (parts ++ rest) = t.follow a.linksLeft a.location rest := by
  induction h with
  | here => rfl
  | idle hl hidle _ ih =>
    obtain ⟨mode, hl⟩ := hl
    rw [List.cons_append, follow]
    simp only [hl, hidle, if_true, ih]
  | up hl _ ih =>
    obtain ⟨mode, hl⟩ := hl
    rw [List.cons_append, follow]
    simp only [hl, ih]
    rfl
  | into hl hname hplain _ ih =>
    obtain ⟨mode, hl⟩ := hl
    obtain ⟨e, he, hlink⟩ := hplain
    rw [List.cons_append, follow]
    simp only [hl, hname.1, hname.2.1, Nat.not_lt.mpr hname.2.2, if_false, Bool.false_eq_true, he]
    cases e with
    | link target => exact absurd rfl (hlink target)
    | directory => exact ih
    | file => exact ih
  | through hl hname he _ ih =>
    obtain ⟨mode, hl⟩ := hl
    rw [List.cons_append, follow]
    simp only [hl, hname.1, hname.2.1, Nat.not_lt.mpr hname.2.2, if_false, Bool.false_eq_true, he]
    rw [← List.append_assoc]
    exact ih

/-- Every walk is found by following. -/
theorem follow_of_walk {links : Nat} {l : Location} {parts : List String} {a : Arrival}
    (h : Walk t links l parts a) : t.follow links l parts = .ok a := by
  have hend := h.follow_append []
  rwa [List.append_nil, follow] at hend

theorem follow_eq_ok_iff {links : Nat} {l : Location} {parts : List String} {a : Arrival} :
    t.follow links l parts = .ok a ↔ Walk t links l parts a := ⟨walk_of_follow, follow_of_walk⟩

namespace Walk

variable {links : Nat} {l : Location} {parts rest : List String} {a b : Arrival}

theorem unique (h : Walk t links l parts a) (h' : Walk t links l parts b) : a = b := by
  have := (follow_of_walk h).symm.trans (follow_of_walk h')
  exact Except.ok.inj this

theorem append (h : Walk t links l parts b) (h' : Walk t b.linksLeft b.location rest a) :
    Walk t links l (parts ++ rest) a := by
  induction h with
  | here => exact h'
  | idle hl hidle _ ih => exact .idle hl hidle (ih h')
  | up hl _ ih => exact .up hl (ih h')
  | into hl hname hplain _ ih => exact .into hl hname hplain (ih h')
  | through hl hname he _ ih =>
    have hnext := ih h'
    rw [List.append_assoc] at hnext
    exact .through hl hname he hnext

/-- A walk through two runs of parts rests between them. -/
theorem split (h : Walk t links l (parts ++ rest) a) :
    ∃ b, Walk t links l parts b ∧ Walk t b.linksLeft b.location rest a := by
  generalize hall : parts ++ rest = all at h
  induction h generalizing parts with
  | here links l =>
    obtain ⟨rfl, rfl⟩ := List.append_eq_nil_iff.mp hall
    exact ⟨_, .here links l, .here links l⟩
  | idle hl hidle hw ih =>
    rcases parts with _ | ⟨part, parts⟩
    · obtain rfl : rest = _ := hall
      exact ⟨_, .here _ _, .idle hl hidle hw⟩
    · obtain ⟨rfl, hrest⟩ := List.cons.inj hall
      obtain ⟨b, hb, ha⟩ := ih hrest
      exact ⟨b, .idle hl hidle hb, ha⟩
  | up hl hw ih =>
    rcases parts with _ | ⟨part, parts⟩
    · obtain rfl : rest = _ := hall
      exact ⟨_, .here _ _, .up hl hw⟩
    · obtain ⟨rfl, hrest⟩ := List.cons.inj hall
      obtain ⟨b, hb, ha⟩ := ih hrest
      exact ⟨b, .up hl hb, ha⟩
  | into hl hname hplain hw ih =>
    rcases parts with _ | ⟨part, parts⟩
    · obtain rfl : rest = _ := hall
      exact ⟨_, .here _ _, .into hl hname hplain hw⟩
    · obtain ⟨rfl, hrest⟩ := List.cons.inj hall
      obtain ⟨b, hb, ha⟩ := ih hrest
      exact ⟨b, .into hl hname hplain hb, ha⟩
  | @through _ _ _ _ _ target hl hname he hw ih =>
    rcases parts with _ | ⟨part, parts⟩
    · obtain rfl : rest = _ := hall
      exact ⟨_, .here _ _, .through hl hname he hw⟩
    · obtain ⟨rfl, rfl⟩ := List.cons.inj hall
      have hall : (target.parts ++ parts) ++ rest = target.parts ++ (parts ++ rest) :=
        List.append_assoc _ _ _
      obtain ⟨b, hb, ha⟩ := ih hall
      exact ⟨b, .through hl hname he hb, ha⟩

/-- More links than needed stay over. -/
theorem add_links (h : Walk t links l parts a) (more : Nat) :
    Walk t (links + more) l parts ⟨a.location, a.linksLeft + more⟩ := by
  induction h with
  | here => exact .here _ _
  | idle hl hidle _ ih => exact .idle hl hidle ih
  | up hl _ ih => exact .up hl ih
  | into hl hname hplain _ ih => exact .into hl hname hplain ih
  | @through links l _ _ _ _ hl hname he _ ih =>
    rw [Nat.add_right_comm]
    exact .through hl hname he ih

/-- How many links are allowed does not matter for where a walk arrives. -/
theorem location_unique {more : Nat} (h : Walk t links l parts a) (h' : Walk t more l parts b) :
    a.location = b.location := by
  have ha := h.add_links more
  have hb := h'.add_links links
  rw [Nat.add_comm] at hb
  exact (Arrival.mk.inj (ha.unique hb)).1

/-- A part needs a directory to stand in. -/
theorem directoryAt_of_cons {part : String} (h : Walk t links l (part :: rest) a) :
    t.DirectoryAt l := by
  cases h <;> assumption

/-- A walk to a directory begins in one. -/
theorem directoryAt_start (h : Walk t links l parts a) (ha : t.DirectoryAt a.location) :
    t.DirectoryAt l := by
  cases parts with
  | nil => cases h; exact ha
  | cons => exact h.directoryAt_of_cons

end Walk

end AnchoredBlocks.FileTree
