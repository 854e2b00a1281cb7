-- The laws of settling a path. What is settled is what can be walked to, as long as every
-- path that is asked for on the way is short enough to be handed over. A longer one is
-- refused, whatever the walk would have found.
import AnchoredBlocks.Proofs.Locations

namespace AnchoredBlocks.FileTree

variable {t : FileTree} {l : Location} {links : Nat} {part name : String}
  {parts rest other : List String} {needed : Bool} {e : Entry} {a : Arrival} {p q : Path}

/-! ## What a name stands for -/

/-- The path is short enough to be handed over. -/
def Short (p : Path) : Prop := p.text.utf8ByteSize < pathLimit

instance (p : Path) : Decidable (Short p) := by
  unfold Short; infer_instance

theorem barrier?_eq_none_iff : t.barrier? l = none ↔ t.DirectoryAt l := by
  unfold barrier? DirectoryAt
  cases t.entry? l with
  | none => simp
  | some e => cases e <;> simp

theorem currentPath?_eq_none_iff : t.currentPath? = none ↔ ¬ t.DirectoryAt t.current := by
  rw [← barrier?_eq_none_iff]
  unfold currentPath?
  cases t.barrier? t.current <;> simp

theorem currentPath?_of_directoryAt (h : t.DirectoryAt t.current) :
    t.currentPath? = some t.current.path := by
  unfold currentPath?
  rw [barrier?_eq_none_iff.mpr h]

theorem entryIn_eq_ok_iff : t.entryIn l name = .ok e ↔
    t.DirectoryAt l ∧ name.utf8ByteSize ≤ nameLimit ∧ t.entry? (l.child name) = some e := by
  rw [← barrier?_eq_none_iff]
  unfold entryIn
  cases t.barrier? l with
  | some refusal => simp
  | none =>
    by_cases hsize : nameLimit < name.utf8ByteSize
    · simp [hsize, Nat.not_le.mpr hsize]
    · cases t.entry? (l.child name) <;> simp [hsize, Nat.le_of_not_lt hsize]

theorem look_of_long (h : ¬ Short (l.child name).path) :
    t.look l name needed = .error .nameTooLong := by
  unfold look
  rw [if_pos (Nat.le_of_not_lt h)]

theorem look_of_long_slashed (hneed : needed = true) (hlong : ¬ Short (slashed (l.child name)))
    (he : t.entryIn l name = .ok e) (hlink : ∀ target, e ≠ .link target) :
    t.look l name needed = .error .nameTooLong := by
  unfold look
  split
  · rfl
  · split
    · rename_i target htarget
      rw [he, Except.ok.injEq] at htarget
      exact absurd htarget (hlink target)
    · rw [if_pos]
      simp [hneed, Nat.le_of_not_lt hlong]

/-- A place is seen under a short path. What is no link has to be seen under its path with a
slash as well, if a directory is needed. -/
theorem look_of_short (hd : t.DirectoryAt l) (hsize : name.utf8ByteSize ≤ nameLimit)
    (he : t.entry? (l.child name) = some e) (hplace : Short (l.child name).path)
    (hagain : (∀ target, e ≠ .link target) → needed = true → Short (slashed (l.child name))) :
    t.look l name needed = .ok e := by
  unfold look
  rw [if_neg (Nat.not_le.mpr hplace), entryIn_eq_ok_iff.mpr ⟨hd, hsize, he⟩]
  split
  · rename_i target htarget
    exact htarget.symm
  · rename_i hlink
    rw [if_neg]
    intro hlong
    simp only [Bool.and_eq_true, decide_eq_true_eq] at hlong
    refine Nat.not_le.mpr (hagain ?_ hlong.1) hlong.2
    rintro target rfl
    exact hlink target rfl

/-- What is found in a place stands there. -/
theorem entryIn_of_look (h : t.look l name needed = .ok e) : t.entryIn l name = .ok e := by
  unfold look at h
  split at h
  · cases h
  · split at h
    · rename_i hlink
      rw [hlink, h]
    · split at h
      · cases h
      · exact h

/-- Where no barrier stands although a directory is needed, there is one. -/
theorem directoryAt_of_free
    (h : ∀ refusal, needDirectory parts = true → t.barrier? l = some refusal → False)
    (hneed : needDirectory parts = true) : t.DirectoryAt l := by
  rw [← barrier?_eq_none_iff, Option.eq_none_iff_forall_ne_some]
  intro refusal hbarrier
  exact h refusal hneed hbarrier

/-! ## One part -/

theorem needDirectory_name (h : IsName part) : needDirectory (part :: rest) = false := by
  unfold needDirectory
  simp [h.1, h.2.1]

theorem settle_idle (hd : t.DirectoryAt l) (hidle : Path.isIdle part = true) :
    t.settle links l (part :: rest) = t.settle links l rest := by
  rw [settle, barrier?_eq_none_iff.mpr hd]
  simp only [hidle, if_true]
  cases needDirectory (part :: rest) <;> rfl

theorem settle_up (hd : t.DirectoryAt l) :
    t.settle links l (".." :: rest) = t.settle links l.parent rest := by
  have hidle : Path.isIdle ".." = false := by decide
  rw [settle, barrier?_eq_none_iff.mpr hd]
  simp only [hidle, Bool.false_eq_true, if_false, if_true]
  cases needDirectory (".." :: rest) <;> rfl

theorem settle_refused {refusal : Refusal} (hname : IsName part)
    (h : t.look l part (needDirectory rest) = .error refusal) :
    t.settle links l (part :: rest) = .error refusal := by
  rw [settle, needDirectory_name hname]
  simp only [hname.1, hname.2.1, h, Bool.false_eq_true, if_false]

theorem settle_into (hname : IsName part) (h : t.look l part (needDirectory rest) = .ok e)
    (hplain : ∀ target, e ≠ .link target) :
    t.settle links l (part :: rest) = t.settle links (l.child part) rest := by
  rw [settle, needDirectory_name hname]
  simp only [hname.1, hname.2.1, h, Bool.false_eq_true, if_false]

theorem settle_through {target : Path} (hname : IsName part)
    (h : t.look l part (needDirectory rest) = .ok (.link target)) :
    t.settle (links + 1) l (part :: rest) =
      t.settle links (linkStart l target) (target.parts ++ rest) := by
  rw [settle, needDirectory_name hname]
  simp only [hname.1, hname.2.1, h, Bool.false_eq_true, if_false]
  rfl

/-! ## What is asked for on the way -/

/-- On the way that the parts lead from a location, the path is asked for. -/
inductive Asks (t : FileTree) : Nat → Location → List String → Path → Prop
  | place {links : Nat} {l : Location} {part : String} {rest : List String} :
      t.DirectoryAt l → IsName part → Asks t links l (part :: rest) (l.child part).path
  | again {links : Nat} {l : Location} {part : String} {rest : List String} :
      t.DirectoryAt l → IsName part → t.PlainAt (l.child part) → needDirectory rest = true →
      Asks t links l (part :: rest) (slashed (l.child part))
  | idle {links : Nat} {l : Location} {part : String} {rest : List String} {p : Path} :
      t.DirectoryAt l → Path.isIdle part = true → Asks t links l rest p →
      Asks t links l (part :: rest) p
  | up {links : Nat} {l : Location} {rest : List String} {p : Path} :
      t.DirectoryAt l → Asks t links l.parent rest p → Asks t links l (".." :: rest) p
  | into {links : Nat} {l : Location} {part : String} {rest : List String} {p : Path} :
      t.DirectoryAt l → IsName part → t.PlainAt (l.child part) →
      Asks t links (l.child part) rest p → Asks t links l (part :: rest) p
  | through {links : Nat} {l : Location} {part : String} {rest : List String} {target p : Path} :
      t.DirectoryAt l → IsName part → t.entry? (l.child part) = some (.link target) →
      Asks t links (linkStart l target) (target.parts ++ rest) p →
      Asks t (links + 1) l (part :: rest) p

namespace Asks

theorem of_idle (hidle : Path.isIdle part = true) (h : Asks t links l (part :: rest) p) :
    Asks t links l rest p := by
  have hname : ¬ IsName part := fun hname => by simp [hname.1] at hidle
  cases h with
  | place _ h => exact absurd h hname
  | again _ h => exact absurd h hname
  | idle _ _ h => exact h
  | up => exact absurd hidle (by decide)
  | into _ h => exact absurd h hname
  | through _ h => exact absurd h hname

theorem of_up (h : Asks t links l (".." :: rest) p) : Asks t links l.parent rest p := by
  have hname : ¬ IsName ".." := fun hname => hname.2.1 rfl
  cases h with
  | place _ h => exact absurd h hname
  | again _ h => exact absurd h hname
  | idle _ hidle => exact absurd hidle (by decide)
  | up _ h => exact h
  | into _ h => exact absurd h hname
  | through _ h => exact absurd h hname

/-- At a name of what is no link, its own path is asked for, then the same with a slash, then
what comes behind it. -/
theorem of_plain (hname : IsName part) (hplain : t.PlainAt (l.child part))
    (h : Asks t links l (part :: rest) p) : p = (l.child part).path ∨
      (needDirectory rest = true ∧ p = slashed (l.child part)) ∨
      Asks t links (l.child part) rest p := by
  cases h with
  | place => exact .inl rfl
  | again _ _ _ hneed => exact .inr (.inl ⟨hneed, rfl⟩)
  | idle _ hidle =>
    rw [hname.1] at hidle
    cases hidle
  | up => exact absurd rfl hname.2.1
  | into _ _ _ h => exact .inr (.inr h)
  | through _ _ he =>
    obtain ⟨e, he', hlink⟩ := hplain
    rw [he', Option.some.injEq] at he
    exact absurd he (hlink _)

/-- At a name of a link, its own path is asked for, then what its target leads through. -/
theorem of_link {target : Path} (hname : IsName part)
    (he : t.entry? (l.child part) = some (.link target))
    (h : Asks t (links + 1) l (part :: rest) p) : p = (l.child part).path ∨
      Asks t links (linkStart l target) (target.parts ++ rest) p := by
  have hplain : ¬ t.PlainAt (l.child part) := by
    rintro ⟨e, he', hlink⟩
    rw [he, Option.some.injEq] at he'
    exact hlink target he'.symm
  cases h with
  | place => exact .inl rfl
  | again _ _ h => exact absurd h hplain
  | idle _ hidle =>
    rw [hname.1] at hidle
    cases hidle
  | up => exact absurd rfl hname.2.1
  | into _ _ h => exact absurd h hplain
  | through _ _ he' h =>
    rw [he, Option.some.injEq, Entry.link.injEq] at he'
    exact .inr (he' ▸ h)

end Asks

/-! ## Settled walks -/

/-- A place on the way is seen if only short paths are asked for. -/
theorem look_of_asks (hd : t.DirectoryAt l) (hname : IsName part)
    (he : t.entry? (l.child part) = some e) (hneed : needed = true → needDirectory rest = true)
    (hshort : ∀ p, Asks t links l (part :: rest) p → Short p) : t.look l part needed = .ok e := by
  apply look_of_short hd hname.2.2 he (hshort _ (.place hd hname))
  intro hlink hneeded
  exact hshort _ (.again hd hname ⟨e, he, hlink⟩ (hneed hneeded))

theorem Walk.directoryAt (h : Walk t links l parts a) (hne : parts ≠ []) : t.DirectoryAt l := by
  obtain ⟨part, rest, rfl⟩ := List.exists_cons_of_ne_nil hne
  exact h.directoryAt_of_cons

/-- A walk is settled if it asks for short paths only. -/
theorem Walk.settle (h : Walk t links l parts a)
    (hshort : ∀ p, Asks t links l parts p → Short p) : t.settle links l parts = .ok a := by
  induction h with
  | here => rw [FileTree.settle]
  | idle hd hidle _ ih =>
    rw [settle_idle hd hidle]
    exact ih fun p hp => hshort p (.idle hd hidle hp)
  | up hd _ ih =>
    rw [settle_up hd]
    exact ih fun p hp => hshort p (.up hd hp)
  | @into links l part rest a hd hname hplain _ ih =>
    obtain ⟨e, he, hlink⟩ := hplain
    rw [settle_into hname (look_of_asks hd hname he id hshort) hlink]
    exact ih fun p hp => hshort p (.into hd hname ⟨e, he, hlink⟩ hp)
  | through hd hname he _ ih =>
    rw [settle_through hname (look_of_asks hd hname he id hshort)]
    exact ih fun p hp => hshort p (.through hd hname he hp)

/-- A walk that asks for a long path is not settled. The first long path on the way is where it
ends. -/
theorem Walk.settle_of_long (h : Walk t links l parts a) (hp : Asks t links l parts p)
    (hlong : ¬ Short p) : t.settle links l parts = .error .nameTooLong := by
  induction h with
  | here => cases hp
  | idle hd hidle _ ih =>
    rw [settle_idle hd hidle]
    exact ih (hp.of_idle hidle)
  | up hd _ ih =>
    rw [settle_up hd]
    exact ih hp.of_up
  | @into links l part rest a hd hname hplain _ ih =>
    obtain ⟨e, he, hlink⟩ := hplain
    have hentry := entryIn_eq_ok_iff.mpr ⟨hd, hname.2.2, he⟩
    by_cases hplace : Short (l.child part).path
    · by_cases hagain : needDirectory rest = true → Short (slashed (l.child part))
      · rw [settle_into hname (look_of_short hd hname.2.2 he hplace fun _ => hagain) hlink]
        rcases hp.of_plain hname ⟨e, he, hlink⟩ with rfl | ⟨hneed, rfl⟩ | hp
        · exact absurd hplace hlong
        · exact absurd (hagain hneed) hlong
        · exact ih hp
      · obtain ⟨hneed, hslashed⟩ := Classical.not_imp.mp hagain
        exact settle_refused hname (look_of_long_slashed hneed hslashed hentry hlink)
    · exact settle_refused hname (look_of_long hplace)
  | @through links l part rest a target hd hname he _ ih =>
    by_cases hplace : Short (l.child part).path
    · rw [settle_through hname (look_of_short hd hname.2.2 he hplace
        fun hlink => absurd rfl (hlink _))]
      rcases hp.of_link hname he with rfl | hp
      · exact absurd hplace hlong
      · exact ih hp
    · exact settle_refused hname (look_of_long hplace)

/-- What is settled is a walk. Where no directory is asked for at once, the next name asks for
it. -/
theorem walk_of_settle (h : t.settle links l parts = .ok a) : Walk t links l parts a := by
  fun_induction FileTree.settle t links l parts with
  | case1 => cases h; exact .here _ _
  | case2 => cases h
  | case3 links l part rest hidle hfree ih =>
    have hw := ih h
    refine .idle ?_ hidle hw
    cases hneed : needDirectory (part :: rest) with
    | true => exact directoryAt_of_free hfree hneed
    | false =>
      unfold needDirectory at hneed
      rw [if_pos hidle] at hneed
      cases rest with
      | nil => cases hneed
      | cons => exact hw.directoryAt_of_cons
  | case4 links l rest hidle hfree ih =>
    have hneed : needDirectory (".." :: rest) = true := by
      unfold needDirectory
      rw [if_neg hidle, decide_eq_true rfl]
    exact .up (directoryAt_of_free hfree hneed) (ih h)
  | case5 => cases h
  | case6 => cases h
  | case7 l part rest hidle hup target hlook left hfree ih =>
    obtain ⟨hd, hsize, he⟩ := entryIn_eq_ok_iff.mp (entryIn_of_look hlook)
    exact .through hd ⟨by simpa using hidle, hup, hsize⟩ he (ih h)
  | case8 links l part rest hidle hup e hlink hlook hfree ih =>
    obtain ⟨hd, hsize, he⟩ := entryIn_eq_ok_iff.mp (entryIn_of_look hlook)
    exact .into hd ⟨by simpa using hidle, hup, hsize⟩ ⟨e, he, hlink⟩ (ih h)

theorem settle_eq_ok_iff : t.settle links l parts = .ok a ↔
    Walk t links l parts a ∧ ∀ p, Asks t links l parts p → Short p := by
  constructor
  · intro h
    have hw := walk_of_settle h
    refine ⟨hw, ?_⟩
    intro p hp
    apply Decidable.byContradiction
    intro hlong
    rw [hw.settle_of_long hp hlong] at h
    cases h
  · rintro ⟨hw, hshort⟩
    exact hw.settle hshort

/-! ## Walks that go on -/

/-- Where a name comes next, no directory is needed that other parts would not need. -/
theorem needDirectory_of_name (hname : IsName name)
    (h : needDirectory (parts ++ name :: rest) = true) :
    needDirectory (parts ++ other) = true := by
  induction parts with
  | nil =>
    rw [List.nil_append, needDirectory_name hname] at h
    cases h
  | cons part parts ih =>
    simp only [List.cons_append, needDirectory] at h ⊢
    split at h
    · rename_i hpart
      simp only [hpart, if_true, Bool.or_eq_true] at h ⊢
      rcases h with hempty | hneed
      · simp at hempty
      · exact .inr (ih hneed)
    · rename_i hpart
      rw [if_neg hpart]
      exact h

/-- Behind a walk that asks for short paths with other parts at its end, a name is settled from
where the walk has arrived. -/
theorem Walk.settle_append (h : Walk t links l parts a) (hname : IsName name)
    (hshort : ∀ p, Asks t links l (parts ++ other) p → Short p) :
    t.settle links l (parts ++ name :: rest) = t.settle a.linksLeft a.location (name :: rest) := by
  have hneed (parts : List String) : needDirectory (parts ++ name :: rest) = true →
      needDirectory (parts ++ other) = true := needDirectory_of_name hname
  induction h with
  | here => rfl
  | idle hd hpart _ ih =>
    rw [List.cons_append, settle_idle hd hpart]
    exact ih fun p hp => hshort p (.idle hd hpart hp)
  | up hd _ ih =>
    rw [List.cons_append, settle_up hd]
    exact ih fun p hp => hshort p (.up hd hp)
  | into hd hpart hplain _ ih =>
    obtain ⟨e, he, hlink⟩ := hplain
    have hlook := look_of_asks hd hpart he (hneed _) hshort
    rw [List.cons_append, settle_into hpart hlook hlink]
    exact ih fun p hp => hshort p (.into hd hpart ⟨e, he, hlink⟩ hp)
  | through hd hpart he _ ih =>
    have hlook := look_of_asks hd hpart he (hneed _) hshort
    rw [List.cons_append, settle_through hpart hlook, ← List.append_assoc]
    apply ih
    intro p hp
    rw [List.append_assoc] at hp
    exact hshort p (.through hd hpart he hp)

/-- With fewer links allowed, parts are settled alike or lead through too many links. -/
theorem settle_of_fewer_links {left : Nat} (h : left ≤ links) (l : Location)
    (parts : List String) : t.settle left l parts = .error .tooManyLinks ∨
      (t.settle left l parts).map Arrival.location =
        (t.settle links l parts).map Arrival.location := by
  fun_induction FileTree.settle t left l parts generalizing links with
  | case1 left l =>
    right
    rw [FileTree.settle]
    rfl
  | case2 left l part rest refusal hbarrier hneed =>
    right
    rw [FileTree.settle]
    simp only [hbarrier, hneed]
  | case3 left l part rest hidle hfree ih =>
    rw [FileTree.settle]
    simp only [hidle, if_true]
    exact ih h
  | case4 left l rest hidle hfree ih =>
    rw [FileTree.settle]
    simp only [hidle, if_true, Bool.false_eq_true, if_false]
    exact ih h
  | case5 left l part rest hidle hup refusal hlook hfree =>
    right
    rw [FileTree.settle]
    simp only [hidle, hup, hlook, Bool.false_eq_true, if_false]
  | case6 => exact .inl rfl
  -- Only a link in the way uses up a link, on both sides.
  | case7 l part rest hidle hup target hlook left hfree ih =>
    obtain ⟨more, rfl⟩ : ∃ more, links = more + 1 := ⟨links - 1, by omega⟩
    rw [FileTree.settle]
    simp only [hidle, hup, hlook, Bool.false_eq_true, if_false]
    exact ih (by omega)
  | case8 left l part rest hidle hup e hlink hlook hfree ih =>
    rw [FileTree.settle]
    simp only [hidle, hup, hlook, Bool.false_eq_true, if_false]
    exact ih h

/-! ## Short locations -/

theorem size_intercalate_le (names : List String) (name : String) :
    ("/".intercalate names).utf8ByteSize ≤ ("/".intercalate (names ++ [name])).utf8ByteSize := by
  induction names with
  | nil => exact Nat.zero_le _
  | cons first names ih =>
    cases names with
    | nil =>
      simp only [List.singleton_append, String.intercalate_cons_cons, String.intercalate_singleton,
        String.utf8ByteSize_append]
      omega
    | cons next names =>
      simp only [List.cons_append, String.intercalate_cons_cons, String.utf8ByteSize_append] at ih ⊢
      omega

/-- What stands in a directory has the longer path. -/
theorem Short.of_child (h : Short (l.child name).path) : Short l.path := by
  have hle := size_intercalate_le l.names name
  unfold Short Location.path at h ⊢
  rw [String.utf8ByteSize_append] at h ⊢
  exact Nat.lt_of_le_of_lt (Nat.add_le_add_left hle _) h

theorem Short.parent (h : Short l.path) : Short l.parent.path := by
  obtain ⟨names⟩ := l
  rcases List.eq_nil_or_concat names with rfl | ⟨above, last, rfl⟩
  · exact h
  · have hparent : Location.parent ⟨above.concat last⟩ = ⟨above⟩ := by simp [Location.parent]
    rw [List.concat_eq_append] at h
    rw [hparent]
    exact Short.of_child h

theorem short_root : Short Location.root.path := by decide

/-- From a location with a short path, a settled walk leads to one. -/
theorem Walk.short (h : Walk t links l parts a) (hl : Short l.path)
    (hshort : ∀ p, Asks t links l parts p → Short p) : Short a.location.path := by
  induction h with
  | here => exact hl
  | idle hd hidle _ ih => exact ih hl fun p hp => hshort p (.idle hd hidle hp)
  | up hd _ ih => exact ih hl.parent fun p hp => hshort p (.up hd hp)
  | into hd hname hplain _ ih =>
    exact ih (hshort _ (.place hd hname)) fun p hp => hshort p (.into hd hname hplain hp)
  | @through _ l _ _ _ target hd hname he _ ih =>
    refine ih ?_ fun p hp => hshort p (.through hd hname he hp)
    unfold linkStart
    split
    · exact short_root
    · exact hl

/-! ## Settling from the root -/

/-- The names of a short location are settled, whatever parts come behind them. -/
theorem Grounded.settle_names (h : Grounded t l) (hl : Short l.path)
    (hneed : needDirectory rest = true → Short (slashed l)) (links : Nat) :
    t.settle links .root (l.names ++ rest) = t.settle links l rest := by
  induction h generalizing rest with
  | root => rfl
  | @child l name _ hd hname _ hplain ih =>
    obtain ⟨e, he, hlink⟩ := hplain
    have hlook : t.look l name (needDirectory rest) = .ok e :=
      look_of_short hd hname.2.2 he hl fun _ => hneed
    have hnext : needDirectory (name :: rest) = true → Short (slashed l) := by
      simp [needDirectory_name hname]
    calc t.settle links .root ((l.child name).names ++ rest)
        = t.settle links .root (l.names ++ name :: rest) := by simp [Location.child]
      _ = t.settle links l (name :: rest) := ih hl.of_child hnext
      _ = t.settle links (l.child name) rest := settle_into hname hlook hlink

/-- The names of a location with a long path are not. -/
theorem Grounded.settle_names_of_long (h : Grounded t l) (hl : ¬ Short l.path) (links : Nat)
    (rest : List String) : t.settle links .root (l.names ++ rest) = .error .nameTooLong := by
  induction h generalizing rest with
  | root => exact absurd short_root hl
  | @child l name hg _ hname _ _ ih =>
    have hnames : (l.child name).names ++ rest = l.names ++ name :: rest := by
      simp [Location.child]
    rw [hnames]
    by_cases habove : Short l.path
    · have hnext : needDirectory (name :: rest) = true → Short (slashed l) := by
        simp [needDirectory_name hname]
      rw [hg.settle_names habove hnext]
      exact settle_refused hname (look_of_long hl)
    · exact ih habove (name :: rest)

/-- The path of a grounded location is settled there, if it is short. -/
theorem Grounded.settle_path (h : Grounded t l) (hl : Short l.path) (links : Nat) :
    t.settle links (t.startOf l.path) l.path.parts = .ok ⟨l, links⟩ := by
  rw [startOf_of_isAbsolute (Path.isAbsolute_path l)]
  by_cases hne : l.names = []
  · have hroot : l = .root := congrArg Location.mk hne
    have hparts : Location.root.path.parts = ["", ""] := by decide
    rw [hroot, hparts, settle_idle (directoryAt_root t) rfl, settle_idle (directoryAt_root t) rfl,
      FileTree.settle]
  · rw [Location.parts_path hne h.slashFree, settle_idle (directoryAt_root t) rfl,
      ← List.append_nil l.names, h.settle_names hl (fun hneed => absurd hneed (by decide)),
      FileTree.settle]

/-! ## Resolved paths -/

/-- To resolve `q`, the path `p` is asked for. -/
def AsksFor (t : FileTree) (q p : Path) : Prop := Asks t linkLimit (t.startOf q) q.parts p

/-- A usable path that begins in a directory resolves to what its parts are settled to. -/
theorem resolve_eq_map (hu : unusable? q = none) (hd : t.DirectoryAt (t.startOf q)) :
    t.resolve q = (t.settle linkLimit (t.startOf q) q.parts).map Arrival.location := by
  unfold resolve
  rw [hu, barrier?_eq_none_iff.mpr hd]

theorem resolve_eq_ok_iff : t.resolve q = .ok l ↔ unusable? q = none ∧
    (∃ left, Walk t linkLimit (t.startOf q) q.parts ⟨l, left⟩) ∧
    ∀ p, t.AsksFor q p → Short p := by
  constructor
  · intro h
    unfold resolve at h
    split at h
    · cases h
    · cases h
    · rename_i hu _
      cases ha : t.settle linkLimit (t.startOf q) q.parts with
      | error refusal =>
        rw [ha] at h
        cases h
      | ok a =>
        rw [ha] at h
        cases h
        obtain ⟨hw, hshort⟩ := settle_eq_ok_iff.mp ha
        exact ⟨hu, ⟨_, hw⟩, hshort⟩
  · rintro ⟨hu, ⟨left, hw⟩, hshort⟩
    rw [resolve_eq_map hu (hw.directoryAt (parts_ne_nil q)), hw.settle hshort]
    rfl

theorem grounded_of_resolve (hq : q.isAbsolute = true) (h : t.resolve q = .ok l) :
    Grounded t l := by
  obtain ⟨_, ⟨left, hw⟩, _⟩ := resolve_eq_ok_iff.mp h
  rw [startOf_of_isAbsolute hq] at hw
  exact hw.grounded .root fun _ => Path.slashFree_of_mem_parts

/-- An absolute path resolves to locations with a short path only. -/
theorem short_of_resolve (hq : q.isAbsolute = true) (h : t.resolve q = .ok l) : Short l.path := by
  obtain ⟨_, ⟨left, hw⟩, hshort⟩ := resolve_eq_ok_iff.mp h
  unfold AsksFor at hshort
  rw [startOf_of_isAbsolute hq] at hw hshort
  exact hw.short short_root hshort

end AnchoredBlocks.FileTree
