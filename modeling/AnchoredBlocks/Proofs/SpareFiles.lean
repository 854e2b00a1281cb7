-- How a file is written by way of a spare one. The spare file is made in the
-- directory of the name, it gets the permission bits that are to be kept, and
-- it is moved over the name. What is left is the one entry that was to change:
-- the name of the spare file is free again.
import AnchoredBlocks.TreeMaking
import AnchoredBlocks.Proofs.PathTexts

namespace AnchoredBlocks

/-- The path of the directory that a path is looked up in. A name alone is looked up in the
current directory. -/
def Path.directory (p : Path) : Path :=
  match p.parent? with
  | some above => if above.text.isEmpty then ⟨"."⟩ else above
  | none => ⟨"."⟩

namespace FileTree

/-! ## Writing by way of a spare file -/

/-- Makes a file at a name that is free. Only its owner may use it. -/
def makeSpare (t : FileTree) (p : Path) (content : Bytes) : Except Refusal FileTree :=
  match t.nameOf p with
  | .error refusal => .error refusal
  | .ok name =>
    if (t.entry? name).isSome then .error .alreadyThere
    else .ok (t.put name (.file content privateMode))

/-- Gives what `p` leads to the permission bits of what `source` leads to. -/
def copyMode (t : FileTree) (source p : Path) : Except Refusal FileTree :=
  match t.mode? source with
  | some mode => t.setMode p mode
  | none => .ok t

/-- Moves a file from the name of a path to the name of another. What stands there gives way,
unless it is a directory. -/
def move (t : FileTree) (p q : Path) : Except Refusal FileTree := do
  let old ← t.nameOf p
  let new ← t.nameOf q
  match t.entry? old, t.entry? new with
  | none, _ => .error .notFound
  | some _, some (.directory _) => .error .isADirectory
  | some e, _ => .ok ((t.erase old).put new e)

/-- Writes a file by way of a spare one. A write that is refused after the spare file was made
removes it. -/
def replaceBySpare (t : FileTree) (p : Path) (spare : String) (content : Bytes) : Attempt :=
  let beside := p.directory.join ⟨spare⟩
  match t.makeSpare beside content with
  | .error refusal => { tree := t, refusal := some refusal }
  | .ok made =>
    match (made.copyMode p beside).bind fun tree => tree.move beside p with
    | .ok tree => { tree }
    | .error refusal =>
      { tree := (made.remove beside).toOption.getD made, refusal := some refusal }

/-- A name for a spare file. -/
structure SpareName (spare : String) : Prop where
  name : IsName spare
  slashFree : Path.SlashFree spare
  noNul : '\x00' ∉ spare.toList

theorem SpareName.ne_empty_and_ne_dot {spare : String} (h : SpareName spare) :
    spare ≠ "" ∧ spare ≠ "." := by
  have hidle := h.name.1
  simpa [Path.isIdle] using hidle

variable {t t' : FileTree} {p : Path} {l free name directory : Location} {e : Entry}
  {content : Bytes} {spare : String}

/-! ## A free name -/

theorem ne_of_free (hfree : t.entry? free = none) (he : t.entry? l = some e) : l ≠ free := by
  rintro rfl
  rw [hfree] at he
  cases he

theorem names_ne_nil_of_free (hfree : t.entry? free = none) : free.names ≠ [] := by
  intro hroot
  simp [hroot, entry?] at hfree

/-- No walk goes by a free name. -/
theorem bypassed_of_free (hfree : t.entry? free = none) (a : Arrival) : Bypassed t free a := by
  refine ⟨?_, ?_, ?_⟩
  · rintro ⟨mode, hd⟩
    exact ne_of_free hfree hd rfl
  · rintro ⟨e, he, _⟩
    exact absurd rfl (ne_of_free hfree he)
  · intro target hlink
    exact absurd rfl (ne_of_free hfree hlink)

theorem reach_put_of_free (hfree : t.entry? free = none) (hr : t.reach p = .ok l) (e : Entry) :
    (t.put free e).reach p = .ok l := by
  obtain ⟨hu, hsize, left, hw⟩ := reach_eq_ok_iff.mp hr
  exact reach_eq_ok_iff.mpr ⟨hu, hsize, left, hw.put_of_bypassed (bypassed_of_free hfree _) e⟩

theorem nameOf_put_of_free (hfree : t.entry? free = none) (hn : t.nameOf p = .ok name)
    (e : Entry) : (t.put free e).nameOf p = .ok name := by
  obtain ⟨hu, hsize, before, last, directory, left, hlast, hw, hd, hrest⟩ :=
    nameOf_eq_ok_iff.mp hn
  exact nameOf_eq_ok_iff.mpr ⟨hu, hsize, before, last, directory, left, hlast,
    hw.put_of_bypassed (bypassed_of_free hfree _) e,
    hd.put (bypassed_of_free hfree ⟨free, 0⟩).not_directoryAt e, hrest⟩

theorem put_put (t : FileTree) (l : Location) (e e' : Entry) :
    (t.put l e).put l e' = t.put l e' := by
  simp [put, List.filter_filter]

/-- What was put at a free name and erased again leaves no trace. -/
theorem erase_put_of_free (hfree : t.entry? free = none) (e : Entry) :
    (t.put free e).erase free = t := by
  have hlookup : t.entries.lookup free = none := by
    simpa [names_ne_nil_of_free hfree, entry?] using hfree
  have hkeep : ∀ x ∈ t.entries, x.1 ≠ free := by
    intro x hx hkey
    have hne := List.lookup_eq_none_iff.mp hlookup x hx
    simp [hkey] at hne
  have hall : t.entries.filter (fun x => x.1 ≠ free) = t.entries :=
    List.filter_eq_self.mpr fun x hx => by simpa using hkeep x hx
  simp only [put, erase]
  rw [List.filter_cons_of_neg (by simp), hall, hall]

/-! ## The name of a spare file -/

theorem text_directory_ne_empty (p : Path) : p.directory.text ≠ "" := by
  unfold Path.directory
  split
  · split
    · decide
    · rename_i habove
      simpa using habove
  · decide

theorem join_name (hdirectory : p.text ≠ "") (hspare : Path.SlashFree spare) :
    p.join ⟨spare⟩ = if p.text.endsWith "/" then ⟨p.text ++ spare⟩ else ⟨p.text ++ "/" ++ spare⟩ := by
  have hrelative := Path.isAbsolute_of_slashFree hspare
  have hempty : p.text.isEmpty = false := by simpa using hdirectory
  unfold Path.join
  rw [hrelative, if_neg Bool.false_ne_true, hempty, Bool.false_or]

/-- A name seen from a directory has the parts of the directory before it, but for the idle
part behind a slash at the end. -/
theorem exists_parts_join (hdirectory : p.text ≠ "") (hspare : Path.SlashFree spare) :
    ∃ before idle, p.parts = before ++ idle ∧ (∀ part ∈ idle, Path.isIdle part = true) ∧
      (p.join ⟨spare⟩).parts = before ++ [spare] := by
  have hsingle := Path.parts_of_slashFree hspare
  rw [join_name hdirectory hspare]
  split
  · rename_i hslash
    obtain ⟨front, hfront, hparts⟩ := Path.exists_front_of_endsWith_slash hslash
    refine ⟨(⟨front⟩ : Path).parts, [""], hparts, by decide, ?_⟩
    rw [hfront, Path.parts_append_slash, hsingle]
  · refine ⟨p.parts, [], (List.append_nil _).symm, by simp, ?_⟩
    rw [Path.parts_append_slash, hsingle]

/-- A name seen from a path begins where the path begins, and it can be looked up like it. -/
theorem startOf_join (hdirectory : p.text ≠ "") (hspare : Path.SlashFree spare) :
    t.startOf (p.join ⟨spare⟩) = t.startOf p := by
  have habsolute : (p.join ⟨spare⟩).isAbsolute = p.isAbsolute := by
    obtain ⟨c, cs, hcs⟩ := List.exists_cons_of_ne_nil (l := p.text.toList) (by simpa using hdirectory)
    rw [Bool.eq_iff_iff, Path.isAbsolute_iff, Path.isAbsolute_iff, join_name hdirectory hspare]
    split <;> simp [hcs]
  unfold startOf
  rw [habsolute]

theorem unusable?_join (hu : unusable? p = none) (hspare : SpareName spare) :
    unusable? (p.join ⟨spare⟩) = none := by
  obtain ⟨hnonempty, hnul⟩ := unusable?_eq_none_iff.mp hu
  have hspareNul := hspare.noNul
  rw [join_name hnonempty hspare.slashFree]
  apply unusable?_eq_none_iff.mpr
  split <;> simp [hnonempty, hnul, hspareNul]

theorem lastName?_of_parts {before : List String} {last : String}
    (h : p.parts = before ++ [last]) (hlast : last ≠ "") : p.lastName? = some (before, last) := by
  unfold Path.lastName?
  rw [h]
  simp [hlast]

/-- A path that ends with its name leads to what it names, unless a link stands there. -/
theorem reach_of_nameOf {before : List String} {last : String} (hn : t.nameOf p = .ok name)
    (hparts : p.parts = before ++ [last]) (hlast : last ≠ "") (hplain : t.PlainAt name) :
    t.reach p = .ok name := by
  obtain ⟨hu, hsize, _, _, directory, left, hlastName, hw, hd, hdot, hdots, hlen, rfl⟩ :=
    nameOf_eq_ok_iff.mp hn
  rw [lastName?_of_parts hparts hlast] at hlastName
  cases hlastName
  have hname : IsName last := ⟨by simp [Path.isIdle, hlast, hdot], hdots, hlen⟩
  refine reach_eq_ok_iff.mpr ⟨hu, hsize, left, ?_⟩
  rw [hparts]
  exact hw.append (.into hd hname hplain (.here _ _))

/-- A name seen from a path that leads to a directory is a name in that directory. -/
theorem nameOf_join (hr : t.reach p = .ok directory) (hd : t.DirectoryAt directory)
    (hspare : SpareName spare) (hsize : (p.join ⟨spare⟩).text.utf8ByteSize < pathLimit) :
    t.nameOf (p.join ⟨spare⟩) = .ok (directory.child spare) := by
  obtain ⟨hu, _, left, hw⟩ := reach_eq_ok_iff.mp hr
  obtain ⟨hnonempty, hnul⟩ := unusable?_eq_none_iff.mp hu
  obtain ⟨before, idle, hparts, hidle, hjoin⟩ := exists_parts_join hnonempty hspare.slashFree
  obtain ⟨hne, hdot⟩ := hspare.ne_empty_and_ne_dot
  rw [hparts] at hw
  obtain ⟨⟨place, more⟩, hbefore, hrest⟩ := hw.split
  have hplace : directory = place := location_of_idle_walk hrest hidle
  subst hplace
  rw [← startOf_join hnonempty hspare.slashFree] at hbefore
  exact nameOf_eq_ok_iff.mpr ⟨unusable?_join hu hspare, hsize, before, spare, directory, more,
    lastName?_of_parts hjoin hne, hbefore, hd, hdot, hspare.name.2.1, hspare.name.2.2, rfl⟩

/-! ## The directory of a file -/

theorem reach_dot (hd : t.DirectoryAt t.current) : t.reach ⟨"."⟩ = .ok t.current := by
  have hparts : (⟨"."⟩ : Path).parts = ["."] := by decide
  have hdot : '/' ∉ ".".toList := by decide
  have hstart := startOf_of_relative (t := t) (Path.isAbsolute_of_slashFree hdot)
  refine reach_eq_ok_iff.mpr
    ⟨unusable?_eq_none_iff.mpr ⟨by decide, by decide⟩, by decide, linkLimit, ?_⟩
  rw [hparts, hstart]
  exact .idle hd rfl (.here _ _)

/-- The name of a path to a file stands in the directory of the path. -/
theorem reach_directory {old : Bytes} {mode : Nat} (hr : t.reach p = .ok l)
    (he : t.entry? l = some (.file old mode)) (hn : t.nameOf p = .ok name) :
    ∃ directory before last, t.reach p.directory = .ok directory ∧ t.DirectoryAt directory ∧
      p.parts = before ++ [last] ∧ name = directory.child last := by
  obtain ⟨hu, hsize, _⟩ := reach_eq_ok_iff.mp hr
  obtain ⟨before, last, directory, left, _, hparts, hlast, rfl, hd, hw, _⟩ :=
    exists_child_of_nameOf hr he hn
  refine ⟨directory, before, last, ?_, hd, hparts, rfl⟩
  unfold Path.directory
  cases before with
  | nil =>
    have hne : last ≠ "" := by
      rintro rfl
      exact absurd hlast.1 (by decide)
    have hrelative : p.isAbsolute = false := by
      rw [Bool.eq_false_iff]
      intro habsolute
      obtain ⟨_, _, hslash⟩ := Path.isAbsolute_iff_parts.mp habsolute
      rw [hparts] at hslash
      simp at hslash
    cases hw
    have hstart := startOf_of_relative (t := t) hrelative
    rw [Path.parent?_of_single hparts hne, hstart]
    exact reach_dot (hstart ▸ hd)
  | cons head tail =>
    -- The idle parts before the name belong to neither the path above it nor the name.
    have hsplit := List.rdropWhile_append_rtakeWhile (p := Path.isIdle) (l := tail)
    have hparts' : p.parts =
        (head :: tail.rdropWhile Path.isIdle) ++ (tail.rtakeWhile Path.isIdle ++ [last]) := by
      rw [List.cons_append, ← List.append_assoc, hsplit]
      exact hparts
    have hbefore : head :: tail =
        (head :: tail.rdropWhile Path.isIdle) ++ tail.rtakeWhile Path.isIdle := by
      rw [List.cons_append, hsplit]
    rw [hbefore] at hw
    obtain ⟨⟨place, more⟩, hfront, hidle⟩ := hw.split
    have hplace : directory = place :=
      location_of_idle_walk hidle fun part hpart => List.mem_rtakeWhile_imp hpart
    subst hplace
    have hreach := reach_ofParts hu hsize hparts' (by simp) (by simp) hfront
    obtain ⟨hnonempty, _⟩ := unusable?_eq_none_iff.mp (reach_eq_ok_iff.mp hreach).1
    rw [Path.parent?_of_parts hparts hlast.1]
    simpa [hnonempty] using hreach

/-! ## The spare file takes the place of the file -/

theorem makeSpare_eq_ok_iff : t.makeSpare p content = .ok t' ↔ ∃ free, t.nameOf p = .ok free ∧
    t.entry? free = none ∧ t' = t.put free (.file content privateMode) := by
  unfold makeSpare
  cases t.nameOf p with
  | error refusal => simp
  | ok name => cases hentry : t.entry? name <;> simp [hentry, eq_comm]

theorem mode?_of_file {old : Bytes} {mode : Nat} (hr : t.reach p = .ok l)
    (he : t.entry? l = some (.file old mode)) : t.mode? p = some mode := by
  simp only [mode?, hr, he]
  rfl

/-- The name of a path to a file stands for the file, or for a link. -/
theorem file_or_link_of_nameOf {old : Bytes} {mode : Nat} (hr : t.reach p = .ok l)
    (he : t.entry? l = some (.file old mode)) (hn : t.nameOf p = .ok name) :
    name = l ∨ ∃ target, t.entry? name = some (.link target) := by
  obtain ⟨_, last, directory, _, _, _, hlast, rfl, _, _, hw⟩ := exists_child_of_nameOf hr he hn
  rcases hw.of_name hlast with hl | ⟨target, _, hlink, _⟩
  · exact .inl hl.symm
  · exact .inr ⟨target, hlink⟩

/-- Once the spare file is made, nothing stands in its way any more. -/
theorem replaceBySpare_of_made {old : Bytes} {made : FileTree} (hspare : SpareName spare)
    (hread : t.read p = .ok old) (hwrite : t.replaceFile p content = .ok t')
    (hmade : t.makeSpare (p.directory.join ⟨spare⟩) content = .ok made) :
    t.replaceBySpare p spare content = { tree := t' } := by
  obtain ⟨l, mode, hr, he⟩ := read_eq_ok_iff.mp hread
  obtain ⟨name, hn, hnot, rfl⟩ := replaceFile_eq_ok_iff.mp hwrite
  obtain ⟨free, hfreeName, hfree, rfl⟩ := makeSpare_eq_ok_iff.mp hmade
  obtain ⟨before, _, _, _, hparts⟩ :=
    exists_parts_join (text_directory_ne_empty p) hspare.slashFree
  have hspareEntry (mode : Nat) : entry? (t.put free (.file content mode)) free =
      some (.file content mode) := entry?_put_self _ (names_ne_nil_of_free hfree)
  have hname : name ≠ free := by
    rcases file_or_link_of_nameOf hr he hn with rfl | ⟨target, hlink⟩
    · exact ne_of_free hfree he
    · exact ne_of_free hfree hlink
  -- The path leads to the old file while the spare one is there.
  have hmode : (t.put free (.file content privateMode)).mode? p = some mode :=
    mode?_of_file (reach_put_of_free hfree hr _)
      ((entry?_put_of_ne _ (ne_of_free hfree he)).trans he)
  have hreach : (t.put free (.file content privateMode)).reach (p.directory.join ⟨spare⟩) =
      .ok free :=
    reach_of_nameOf (nameOf_put_of_free hfree hfreeName _) hparts hspare.ne_empty_and_ne_dot.1
      ⟨_, hspareEntry _, fun _ => Entry.noConfusion⟩
  have hmoded : (t.put free (.file content privateMode)).copyMode p (p.directory.join ⟨spare⟩) =
      .ok (t.put free (.file content mode)) := by
    simp only [copyMode, hmode, setMode, hreach, bind, Except.bind, hspareEntry, Entry.withMode,
      put_put]
  have hmoved : (t.put free (.file content mode)).move (p.directory.join ⟨spare⟩) p =
      .ok (t.put name (.file content mode)) := by
    simp only [move, nameOf_put_of_free hfree hfreeName, nameOf_put_of_free hfree hn, bind,
      Except.bind, hspareEntry, entry?_put_of_ne _ hname, erase_put_of_free hfree]
    split
    · rename_i hspareNone
      cases hspareNone
    · rename_i hd
      exact absurd ⟨_, hd⟩ hnot
    · rename_i hspareSome _
      cases hspareSome
      rfl
  unfold replaceBySpare
  simp only [hmade, hmoded, Except.bind, hmoved, mode?_of_file hr he, Option.getD_some]

/-- With a free name in the directory of the path, the spare file can be made. -/
theorem replaceBySpare_of_free {old : Bytes} (hspare : SpareName spare)
    (hread : t.read p = .ok old) (hwrite : t.replaceFile p content = .ok t')
    (hr : t.reach p.directory = .ok directory) (hd : t.DirectoryAt directory)
    (hsize : (p.directory.join ⟨spare⟩).text.utf8ByteSize < pathLimit)
    (hfree : t.entry? (directory.child spare) = none) :
    t.replaceBySpare p spare content = { tree := t' } :=
  replaceBySpare_of_made hspare hread hwrite
    (makeSpare_eq_ok_iff.mpr ⟨_, nameOf_join hr hd hspare hsize, hfree, rfl⟩)

/-- A write by way of a spare file does what it is to do, or it is refused before the spare
file is made. -/
theorem replaceBySpare_of_replaceFile {old : Bytes} (hspare : SpareName spare)
    (hread : t.read p = .ok old) (hwrite : t.replaceFile p content = .ok t') :
    t.replaceBySpare p spare content = { tree := t' } ∨
      ∃ refusal, t.replaceBySpare p spare content = { tree := t, refusal := some refusal } := by
  cases hmade : t.makeSpare (p.directory.join ⟨spare⟩) content with
  | ok made => exact .inl (replaceBySpare_of_made hspare hread hwrite hmade)
  | error refusal =>
    right
    refine ⟨refusal, ?_⟩
    unfold replaceBySpare
    simp only [hmade]

end FileTree

end AnchoredBlocks
