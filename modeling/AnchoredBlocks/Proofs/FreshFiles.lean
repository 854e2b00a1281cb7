-- The laws of a fresh file. What a path reads can be replaced under the same
-- path, and the path then reads the fresh content, also where the path went
-- through a link that the file took the place of. Paths to other files read what
-- they have read before.
import AnchoredBlocks.Proofs.Walks

namespace AnchoredBlocks

/-! ## The parts of a path -/

namespace Path

theorem splitSlashes_eq_splitOn (cs : List Char) : splitSlashes cs = cs.splitOn '/' := by
  induction cs with
  | nil => rfl
  | cons c cs ih =>
    rw [splitSlashes, List.splitOn_cons_eq_if_modifyHead, ih]
    by_cases hc : c = '/'
    · simp [hc]
    · obtain ⟨run, runs, hruns⟩ := List.exists_cons_of_ne_nil (List.splitOn_ne_nil '/' cs)
      simp [hc, hruns]

theorem parts_eq (p : Path) : p.parts = (p.text.toList.splitOn '/').map String.ofList := by
  rw [parts, splitSlashes_eq_splitOn]

end Path

namespace FileTree

variable {t t' : FileTree} {p : Path} {l name : Location}

theorem parts_ne_nil (p : Path) : p.parts ≠ [] := by
  rw [Path.parts_eq]
  simp

/-- Behind the last name of a path there are empty parts only. -/
theorem parts_of_lastName? {before : List String} {last : String}
    (h : p.lastName? = some (before, last)) :
    ∃ k, p.parts = before ++ last :: List.replicate k "" ∧ last ≠ "" := by
  unfold Path.lastName? at h
  have hall := List.takeWhile_append_dropWhile (p := String.isEmpty) (l := p.parts.reverse)
  split at h
  · rename_i last' before' hdrop
    simp only [Option.some.injEq, Prod.mk.injEq] at h
    obtain ⟨rfl, rfl⟩ := h
    refine ⟨(p.parts.reverse.takeWhile String.isEmpty).length, ?_, ?_⟩
    · have hidle : p.parts.reverse.takeWhile String.isEmpty =
          List.replicate (p.parts.reverse.takeWhile String.isEmpty).length "" := by
        rw [List.eq_replicate_iff]
        refine ⟨rfl, fun part hpart => ?_⟩
        have := List.all_takeWhile (p := String.isEmpty) (l := p.parts.reverse)
        exact String.isEmpty_iff.mp (List.all_eq_true.mp this part hpart)
      rw [hdrop, hidle] at hall
      have hback := congrArg List.reverse hall
      simpa using hback.symm
    · have := List.head?_dropWhile_not String.isEmpty p.parts.reverse
      rw [hdrop] at this
      simpa using this
  · cases h

theorem parts_of_lastName?_eq_none (h : p.lastName? = none) : ∀ part ∈ p.parts, part = "" := by
  unfold Path.lastName? at h
  split at h
  · cases h
  · rename_i hdrop
    intro part hpart
    have hall := List.takeWhile_append_dropWhile (p := String.isEmpty) (l := p.parts.reverse)
    rw [hdrop, List.append_nil] at hall
    have hidle := List.all_takeWhile (p := String.isEmpty) (l := p.parts.reverse)
    rw [hall] at hidle
    exact String.isEmpty_iff.mp
      (List.all_eq_true.mp hidle part (List.mem_reverse.mpr hpart))

/-! ## Where a path leads and what it names -/

theorem reach_eq_ok_iff : t.reach p = .ok l ↔ unusable? p = none ∧
    p.text.utf8ByteSize < pathLimit ∧ ∃ left, Walk t linkLimit (t.startOf p) p.parts ⟨l, left⟩ := by
  unfold reach
  cases hu : unusable? p with
  | some refusal => simp
  | none =>
    by_cases hp : pathLimit ≤ p.text.utf8ByteSize
    · simp [hp, Nat.not_lt.mpr hp]
    · simp only [hp, if_false, true_and, Nat.lt_of_not_le hp, ← follow_eq_ok_iff]
      cases hf : t.follow linkLimit (t.startOf p) p.parts with
      | error refusal => simp
      | ok a =>
        obtain ⟨k, left⟩ := a
        simp

theorem read_eq_ok_iff {content : Bytes} : t.read p = .ok content ↔
    ∃ l mode, t.reach p = .ok l ∧ t.entry? l = some (.file content mode) := by
  unfold read
  cases hr : t.reach p with
  | error refusal => simp
  | ok l =>
    cases he : t.entry? l with
    | none => simp [he]
    | some e => cases e <;> simp [he]

theorem placeAfter_eq_ok_iff {links : Nat} {start : Location} {before : List String}
    {last : String} {a : Arrival} : t.placeAfter links start before last = .ok a ↔
      ∃ directory left, Walk t links start before ⟨directory, left⟩ ∧ t.DirectoryAt directory ∧
        last ≠ "." ∧ last ≠ ".." ∧ a = ⟨directory.child last, left⟩ := by
  unfold placeAfter
  constructor
  · intro h
    split at h
    · cases h
    · rename_i directory left hw
      split at h
      · rename_i mode hd
        split at h
        · cases h
        · rename_i hdots
          simp only [Bool.or_eq_true, decide_eq_true_eq, not_or] at hdots
          cases h
          exact ⟨directory, left, walk_of_follow hw, ⟨mode, hd⟩, hdots.1, hdots.2, rfl⟩
      · cases h
      · cases h
  · rintro ⟨directory, left, hw, ⟨mode, hd⟩, hdot, hdots, rfl⟩
    simp [follow_of_walk hw, hd, hdot, hdots]

theorem fitting_child_eq_ok_iff {directory : Location} {last : String} :
    fitting (directory.child last) = .ok name ↔
      last.utf8ByteSize ≤ nameLimit ∧ name = directory.child last := by
  unfold fitting
  simp only [Location.child, List.getLastD_concat]
  split
  · simp only [reduceCtorEq, false_iff, not_and]
    omega
  · simp only [Except.ok.injEq, eq_comm, iff_and_self]
    omega

theorem nameOf_eq_ok_iff : t.nameOf p = .ok name ↔ unusable? p = none ∧
    p.text.utf8ByteSize < pathLimit ∧ ∃ before last directory left,
      p.lastName? = some (before, last) ∧
      Walk t linkLimit (t.startOf p) before ⟨directory, left⟩ ∧ t.DirectoryAt directory ∧
      last ≠ "." ∧ last ≠ ".." ∧ last.utf8ByteSize ≤ nameLimit ∧
      name = directory.child last := by
  unfold nameOf placeFrom
  constructor
  · intro h
    split at h
    · cases h
    · rename_i hu
      split at h
      · cases h
      · rename_i hsize
        split at h
        · cases h
        · rename_i place hplace
          split at hplace
          · cases hplace
          · rename_i before last hlast
            obtain ⟨directory, left, hw, hd, hdot, hdots, rfl⟩ := placeAfter_eq_ok_iff.mp hplace
            obtain ⟨hlen, rfl⟩ := fitting_child_eq_ok_iff.mp h
            have hshort : p.text.utf8ByteSize < pathLimit := by omega
            exact ⟨hu, hshort, before, last, directory, left, hlast, hw, hd, hdot, hdots, hlen,
              rfl⟩
  · rintro ⟨hu, hsize, before, last, directory, left, hlast, hw, hd, hdot, hdots, hlen, rfl⟩
    have hplace := placeAfter_eq_ok_iff.mpr ⟨directory, left, hw, hd, hdot, hdots, rfl⟩
    simp only [hu, Nat.not_le.mpr hsize, if_false, hlast, hplace]
    exact fitting_child_eq_ok_iff.mpr ⟨hlen, rfl⟩

theorem replaceFile_eq_ok_iff {content : Bytes} : t.replaceFile p content = .ok t' ↔
    ∃ name, t.nameOf p = .ok name ∧ ¬ t.DirectoryAt name ∧
      t' = t.put name (.file content ((t.mode? p).getD privateMode)) := by
  unfold replaceFile
  constructor
  · intro h
    split at h
    · cases h
    · rename_i name hname
      split at h
      · cases h
      · rename_i hd
        cases h
        exact ⟨name, hname, fun ⟨mode, hmode⟩ => hd mode hmode, rfl⟩
  · rintro ⟨name, hname, hd, rfl⟩
    simp only [hname]
    split
    · rename_i mode hmode
      exact absurd ⟨mode, hmode⟩ hd
    · rfl

/-! ## The name of a file that is read -/

theorem not_directoryAt_of_file {content : Bytes} {mode : Nat}
    (h : t.entry? l = some (.file content mode)) : ¬ t.DirectoryAt l := by
  rintro ⟨other, hd⟩
  rw [h] at hd
  cases hd

/-- Idle parts lead nowhere and through no link. -/
theorem Walk.eq_of_idle {links : Nat} {parts : List String} {a : Arrival}
    (h : Walk t links l parts a) (hidle : ∀ part ∈ parts, Path.isIdle part = true) :
    a = ⟨l, links⟩ := by
  induction h with
  | here => rfl
  | idle _ _ _ ih => exact ih fun part hpart => hidle part (List.mem_cons_of_mem _ hpart)
  | up => exact absurd (hidle ".." List.mem_cons_self) (by decide)
  | into _ hname => exact absurd (hidle _ List.mem_cons_self) (by simp [hname.1])
  | through _ hname => exact absurd (hidle _ List.mem_cons_self) (by simp [hname.1])

theorem location_of_idle_walk {links : Nat} {parts : List String} {a : Arrival}
    (h : Walk t links l parts a) (hidle : ∀ part ∈ parts, Path.isIdle part = true) :
    a.location = l := by
  rw [h.eq_of_idle hidle]

theorem isIdle_of_mem_replicate {k : Nat} {part : String} (h : part ∈ List.replicate k "") :
    Path.isIdle part = true := by
  rw [List.eq_of_mem_replicate h]
  rfl

/-- The last part of a path to a file is a name, and nothing stands behind it. -/
theorem parts_of_reach_file {before : List String} {last : String} {content : Bytes} {mode : Nat}
    (hr : t.reach p = .ok l) (he : t.entry? l = some (.file content mode))
    (hlast : p.lastName? = some (before, last)) (hdots : last ≠ "..") :
    p.parts = before ++ [last] ∧ IsName last ∧ ∃ directory left left',
      Walk t linkLimit (t.startOf p) before ⟨directory, left⟩ ∧ t.DirectoryAt directory ∧
      Walk t left directory [last] ⟨l, left'⟩ := by
  have hfile := not_directoryAt_of_file he
  obtain ⟨_, _, left', hw⟩ := reach_eq_ok_iff.mp hr
  obtain ⟨k, hparts, _⟩ := parts_of_lastName? hlast
  rw [hparts, ← List.singleton_append] at hw
  obtain ⟨⟨directory, left⟩, hbefore, hrest⟩ := hw.split
  obtain ⟨⟨place, left''⟩, hlastWalk, hidle⟩ := hrest.split
  have hplace : l = place :=
    location_of_idle_walk hidle fun _ => isIdle_of_mem_replicate
  subst hplace
  rcases k with _ | k
  · cases hidle
    refine ⟨hparts, ?_, directory, left, _, hbefore, hlastWalk.directoryAt_of_cons, hlastWalk⟩
    cases hlastWalk with
    | idle hd _ hrest =>
      cases hrest
      exact absurd hd hfile
    | up => exact absurd rfl hdots
    | into _ hname => exact hname
    | through _ hname => exact hname
  · -- An empty part behind the name needs a directory where the file stands.
    rw [List.replicate_succ] at hidle
    exact absurd hidle.directoryAt_of_cons hfile

/-- The name of a path to a file is the child of a directory that the path leads through. -/
theorem exists_child_of_nameOf {content : Bytes} {mode : Nat} (hr : t.reach p = .ok l)
    (he : t.entry? l = some (.file content mode)) (hn : t.nameOf p = .ok name) :
    ∃ before last directory left left', p.parts = before ++ [last] ∧ IsName last ∧
      name = directory.child last ∧ t.DirectoryAt directory ∧
      Walk t linkLimit (t.startOf p) before ⟨directory, left⟩ ∧
      Walk t left directory [last] ⟨l, left'⟩ := by
  obtain ⟨_, _, before, last, directory, left, hlast, hbefore, _, _, hdots, _, rfl⟩ :=
    nameOf_eq_ok_iff.mp hn
  obtain ⟨hparts, hname, directory', left', left'', hbefore', hd, hw⟩ :=
    parts_of_reach_file hr he hlast hdots
  obtain ⟨rfl, rfl⟩ := Arrival.mk.inj (hbefore.unique hbefore')
  exact ⟨before, last, directory, left, left'', hparts, hname, rfl, hd, hbefore, hw⟩

/-! ## Walks past a fresh file -/

/-- No walk to a directory goes by the name: it stands for a file, or for a link that leads
to no directory. -/
def OffTheWay (t : FileTree) (name : Location) : Prop :=
  ¬ t.DirectoryAt name ∧ ∀ target links a, t.entry? name = some (.link target) →
    Walk t links (linkStart name.parent target) target.parts a → ¬ t.DirectoryAt a.location

theorem parent_child (l : Location) (name : String) : (l.child name).parent = l := by
  simp [Location.child, Location.parent]

/-- A walk over one name ends there, or it goes on through the link that stands there. -/
theorem Walk.of_name {directory : Location} {last : String} {links left : Nat}
    (h : Walk t links directory [last] ⟨l, left⟩) (hname : IsName last) :
    l = directory.child last ∨ ∃ target more,
      t.entry? (directory.child last) = some (.link target) ∧
        Walk t more (linkStart directory target) target.parts ⟨l, left⟩ := by
  cases h with
  | idle _ hidle =>
    rw [hname.1] at hidle
    cases hidle
  | up => exact absurd rfl hname.2.1
  | into _ _ _ hend =>
    cases hend
    exact .inl rfl
  | through _ _ hentry hend =>
    rw [List.append_nil] at hend
    exact .inr ⟨_, _, hentry, hend⟩

/-- What leads to a file is off the way. -/
theorem offTheWay_of_walk {directory : Location} {last : String} {links left : Nat}
    {content : Bytes} {mode : Nat} (hname : IsName last)
    (hw : Walk t links directory [last] ⟨l, left⟩)
    (he : t.entry? l = some (.file content mode)) : OffTheWay t (directory.child last) := by
  rcases hw.of_name hname with rfl | ⟨target, more, hentry, hend⟩
  · refine ⟨not_directoryAt_of_file he, ?_⟩
    intro target _ _ hlink
    rw [he] at hlink
    cases hlink
  · refine ⟨?_, ?_⟩
    · rintro ⟨_, hd⟩
      rw [hentry] at hd
      cases hd
    · intro target' _ a hlink hwalk hd
      rw [hentry] at hlink
      cases hlink
      rw [parent_child] at hwalk
      rw [hwalk.location_unique hend] at hd
      exact not_directoryAt_of_file he hd

theorem DirectoryAt.put (h : t.DirectoryAt l) (hname : ¬ t.DirectoryAt name) (e : Entry) :
    (t.put name e).DirectoryAt l := by
  have hne : l ≠ name := fun heq => hname (heq ▸ h)
  obtain ⟨mode, h⟩ := h
  exact ⟨mode, by rw [entry?_put_of_ne e hne, h]⟩

/-- No walk with this arrival goes by the name, neither on from what stands there nor through
a link that stands there. -/
structure Bypassed (t : FileTree) (name : Location) (a : Arrival) : Prop where
  not_directoryAt : ¬ t.DirectoryAt name
  plain : t.PlainAt name → ∀ links rest, ¬ Walk t links name rest a
  link : ∀ target, t.entry? name = some (.link target) → ∀ links rest,
    ¬ Walk t links (linkStart name.parent target) (target.parts ++ rest) a

/-- A walk stays as it is when an entry that it does not go by changes. -/
theorem Walk.put_of_bypassed {links : Nat} {parts : List String} {a : Arrival}
    (h : Walk t links l parts a) (hname : Bypassed t name a) (e : Entry) :
    Walk (t.put name e) links l parts a := by
  induction h with
  | here => exact .here _ _
  | idle hl hidle _ ih => exact .idle (hl.put hname.not_directoryAt e) hidle (ih hname)
  | up hl _ ih => exact .up (hl.put hname.not_directoryAt e) (ih hname)
  | @into _ l part _ _ hl hpart hplain hw ih =>
    have hne : l.child part ≠ name := by
      rintro rfl
      exact hname.plain hplain _ _ hw
    obtain ⟨old, hold, hlink⟩ := hplain
    refine .into (hl.put hname.not_directoryAt e) hpart ⟨old, ?_, hlink⟩ (ih hname)
    rw [entry?_put_of_ne e hne, hold]
  | @through _ l part _ _ target hl hpart hentry hw ih =>
    have hne : l.child part ≠ name := by
      rintro rfl
      rw [← parent_child l part] at hw
      exact hname.link _ hentry _ _ hw
    refine .through (hl.put hname.not_directoryAt e) hpart ?_ (ih hname)
    rw [entry?_put_of_ne e hne, hentry]

/-- A walk to a directory stays as it is when an entry off the way changes. -/
theorem Walk.put {links : Nat} {parts : List String} {a : Arrival}
    (h : Walk t links l parts a) (hname : OffTheWay t name) (ha : t.DirectoryAt a.location)
    (e : Entry) : Walk (t.put name e) links l parts a := by
  apply h.put_of_bypassed
  refine ⟨hname.1, ?_, ?_⟩
  · intro _ _ _ hw
    exact hname.1 (hw.directoryAt_start ha)
  · intro target hlink _ _ hw
    obtain ⟨b, hb, hrest⟩ := hw.split
    exact hname.2 _ _ _ hlink hb (hrest.directoryAt_start ha)

/-! ## Reading back -/

/-- A path that has read a file reads the fresh content after the file is replaced. -/
theorem read_replaceFile {old fresh : Bytes} (hread : t.read p = .ok old)
    (hwrite : t.replaceFile p fresh = .ok t') : t'.read p = .ok fresh := by
  obtain ⟨l, mode, hr, he⟩ := read_eq_ok_iff.mp hread
  obtain ⟨name, hn, _, rfl⟩ := replaceFile_eq_ok_iff.mp hwrite
  obtain ⟨before, last, directory, left, left', hparts, hname, rfl, hd, hbefore, hw⟩ :=
    exists_child_of_nameOf hr he hn
  have hoff := offTheWay_of_walk hname hw he
  obtain ⟨hu, hsize, _⟩ := reach_eq_ok_iff.mp hr
  generalize hfile : Entry.file fresh ((t.mode? p).getD privateMode) = file
  have hentry : entry? (t.put (directory.child last) file) (directory.child last) = some file :=
    entry?_put_self file (child_names_ne_nil _ _)
  have hplain : (t.put (directory.child last) file).PlainAt (directory.child last) :=
    ⟨file, hentry, fun target => by simp [← hfile]⟩
  have hwalk := (hbefore.put hoff hd file).append
    (.into (hd.put hoff.1 file) hname hplain (.here _ _))
  rw [← hparts] at hwalk
  rw [read_eq_ok_iff]
  exact ⟨_, _, reach_eq_ok_iff.mpr ⟨hu, hsize, _, hwalk⟩, by rw [hentry, ← hfile]⟩

/-! ## Other files -/

/-- A walk that goes on from a file ends there. -/
theorem Walk.location_of_file {links : Nat} {parts : List String} {a : Arrival}
    {content : Bytes} {mode : Nat} (h : Walk t links l parts a)
    (he : t.entry? l = some (.file content mode)) : a.location = l := by
  cases parts with
  | nil =>
    cases h
    rfl
  | cons => exact absurd h.directoryAt_of_cons (not_directoryAt_of_file he)

/-- What leads to a file is only passed by walks to that file. -/
theorem bypassed_of_walk {directory : Location} {last : String} {links left : Nat}
    {content : Bytes} {mode : Nat} {a : Arrival} (hname : IsName last)
    (hw : Walk t links directory [last] ⟨l, left⟩)
    (he : t.entry? l = some (.file content mode)) (hne : a.location ≠ l) :
    Bypassed t (directory.child last) a := by
  have hdirectory := (offTheWay_of_walk hname hw he).1
  rcases hw.of_name hname with rfl | ⟨target, more, hentry, hend⟩
  · refine ⟨hdirectory, ?_, ?_⟩
    · intro _ _ _ hrest
      exact hne (hrest.location_of_file he)
    · intro target hlink
      rw [he] at hlink
      cases hlink
  · refine ⟨hdirectory, ?_, ?_⟩
    · rintro ⟨e, hplain, hlink⟩
      rw [hentry] at hplain
      exact absurd (Option.some.inj hplain).symm (hlink target)
    · intro target' hlink links' rest hrest
      rw [hentry] at hlink
      cases hlink
      rw [parent_child] at hrest
      obtain ⟨b, hb, hrest⟩ := hrest.split
      have hplace : b.location = l := hb.location_unique hend
      rw [hplace] at hrest
      exact hne (hrest.location_of_file he)

/-- A path that leads to another file reads what it has read before. -/
theorem read_replaceFile_of_ne {q : Path} {old fresh content : Bytes} (hread : t.read p = .ok old)
    (hwrite : t.replaceFile p fresh = .ok t') (hq : t.read q = .ok content)
    (hne : t.reach q ≠ t.reach p) : t'.read q = .ok content := by
  obtain ⟨l, mode, hr, he⟩ := read_eq_ok_iff.mp hread
  obtain ⟨k, mode', hk, hkentry⟩ := read_eq_ok_iff.mp hq
  obtain ⟨name, hn, _, rfl⟩ := replaceFile_eq_ok_iff.mp hwrite
  obtain ⟨before, last, directory, left, left', _, hname, rfl, _, _, hw⟩ :=
    exists_child_of_nameOf hr he hn
  obtain ⟨hu, hsize, more, hwalk⟩ := reach_eq_ok_iff.mp hk
  have hkl : k ≠ l := by
    rintro rfl
    exact hne (hk.trans hr.symm)
  have hbypassed : Bypassed t (directory.child last) ⟨k, more⟩ := bypassed_of_walk hname hw he hkl
  have hknot : k ≠ directory.child last := by
    rintro rfl
    exact hbypassed.plain ⟨_, hkentry, fun _ => Entry.noConfusion⟩ _ _ (.here more _)
  have hkept := hwalk.put_of_bypassed hbypassed
    (.file fresh ((t.mode? p).getD privateMode))
  exact read_eq_ok_iff.mpr ⟨k, mode', reach_eq_ok_iff.mpr ⟨hu, hsize, more, hkept⟩,
    (entry?_put_of_ne _ hknot).trans hkentry⟩

/-! ## Well-formed trees -/

/-- Every entry stands in a directory. -/
def Closed (t : FileTree) : Prop := ∀ x ∈ t.entries, t.DirectoryAt x.1.parent

theorem Closed.directoryAt_parent (h : t.Closed) {e : Entry} (he : t.entry? l = some e) :
    t.DirectoryAt l.parent := by
  unfold entry? at he
  split at he
  · rename_i hroot
    have : l.parent = .root := by simp_all [Location.parent, Location.root]
    rw [this]
    exact directoryAt_root t
  · obtain ⟨before, after, hentries, _⟩ := List.lookup_eq_some_iff.mp he
    exact h (l, e) (by rw [hentries]; simp)

/-- A fresh file stands in a directory too. -/
theorem Closed.replaceFile (h : t.Closed) {content : Bytes}
    (hwrite : t.replaceFile p content = .ok t') : t'.Closed := by
  obtain ⟨name, hn, hd, rfl⟩ := replaceFile_eq_ok_iff.mp hwrite
  obtain ⟨_, _, _, last, directory, _, _, _, hdirectory, _, _, _, rfl⟩ := nameOf_eq_ok_iff.mp hn
  intro x hx
  unfold FileTree.put at hx
  rcases List.mem_cons.mp hx with rfl | hx
  · rw [parent_child]
    exact hdirectory.put hd _
  · exact (h x (List.mem_filter.mp hx).1).put hd _

/-- Dots at the end of a path lead to a directory, as every directory stands in one. -/
theorem lastName?_of_reach_file (ht : t.Closed) {content : Bytes} {mode : Nat}
    (hr : t.reach p = .ok l) (he : t.entry? l = some (.file content mode)) :
    ∃ before last, p.lastName? = some (before, last) ∧ last ≠ ".." := by
  have hfile := not_directoryAt_of_file he
  obtain ⟨_, _, left, hw⟩ := reach_eq_ok_iff.mp hr
  cases hlast : p.lastName? with
  | none =>
    have hidle := parts_of_lastName?_eq_none hlast
    have hl : l = t.startOf p := location_of_idle_walk hw fun part hpart => hidle part hpart ▸ rfl
    obtain ⟨part, rest, hparts⟩ := List.exists_cons_of_ne_nil (parts_ne_nil p)
    rw [hparts] at hw
    exact absurd (hl ▸ hw.directoryAt_of_cons) hfile
  | some found =>
    obtain ⟨before, last⟩ := found
    refine ⟨before, last, rfl, ?_⟩
    rintro rfl
    obtain ⟨k, hparts, _⟩ := parts_of_lastName? hlast
    rw [hparts] at hw
    obtain ⟨⟨directory, more⟩, _, hrest⟩ := hw.split
    cases hrest with
    | idle _ hidle => exact absurd hidle (by decide)
    | up hd hrest =>
      have hl : l = directory.parent :=
        location_of_idle_walk hrest fun _ => isIdle_of_mem_replicate
      obtain ⟨mode, hd⟩ := hd
      exact hfile (hl ▸ ht.directoryAt_parent hd)
    | into _ hname => exact absurd rfl hname.2.1
    | through _ hname => exact absurd rfl hname.2.1

/-- What is read can be replaced. -/
theorem exists_replaceFile (ht : t.Closed) {old : Bytes} (hread : t.read p = .ok old)
    (fresh : Bytes) : ∃ t', t.replaceFile p fresh = .ok t' := by
  obtain ⟨l, mode, hr, he⟩ := read_eq_ok_iff.mp hread
  obtain ⟨hu, hsize, _⟩ := reach_eq_ok_iff.mp hr
  obtain ⟨before, last, hlast, hdots⟩ := lastName?_of_reach_file ht hr he
  obtain ⟨_, hname, directory, left, _, hbefore, hd, hw⟩ := parts_of_reach_file hr he hlast hdots
  have hdot : last ≠ "." := by
    rintro rfl
    exact absurd hname.1 (by decide)
  have hn : t.nameOf p = .ok (directory.child last) := nameOf_eq_ok_iff.mpr
    ⟨hu, hsize, before, last, directory, left, hlast, hbefore, hd, hdot, hdots, hname.2.2, rfl⟩
  exact ⟨_, replaceFile_eq_ok_iff.mpr ⟨_, hn, (offTheWay_of_walk hname hw he).1, rfl⟩⟩

end FileTree

end AnchoredBlocks
