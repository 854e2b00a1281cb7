-- How a fence decides. It asks where a path leads and where the version store of the
-- workspace is, and it asks nothing else. So two spellings of one location are judged
-- alike, and no spelling leads into the version store.
import AnchoredBlocks.Proofs.FencedRuns
import AnchoredBlocks.Proofs.SoundTrees
import AnchoredBlocks.Proofs.SpareFiles

namespace AnchoredBlocks

namespace FileTree

variable {t : FileTree} {p : Path} {r l : Location} {left links : Nat} {name : String}

/-! ## A name behind a spelling of a directory -/

/-- A name seen from a path that resolves is settled from the location, with the links that the
path has left over. -/
theorem settle_join_name (hp : t.resolve p = .ok r) (hname : SpareName name) :
    ∃ left ≤ linkLimit, t.settle linkLimit (t.startOf (p.join ⟨name⟩)) (p.join ⟨name⟩).parts =
      t.settle left r [name] := by
  obtain ⟨hu, ⟨left, hw⟩, hshort⟩ := resolve_eq_ok_iff.mp hp
  have hne := (unusable?_eq_none_iff.mp hu).1
  obtain ⟨before, idle, hparts, hidle, hjoin⟩ := exists_parts_join hne hname.slashFree
  unfold AsksFor at hshort
  rw [hparts] at hw hshort
  obtain ⟨b, hbefore, hrest⟩ := hw.split
  obtain ⟨rfl, rfl⟩ := Arrival.mk.inj (hrest.eq_of_idle hidle)
  refine ⟨b.linksLeft, follow_linksLeft_le _ _ _ _ _ (follow_of_walk hbefore), ?_⟩
  rw [startOf_join hne hname.slashFree, hjoin, hbefore.settle_append hname.name hshort]

/-- A name in a grounded location is settled from there, or the path of the place is too long. -/
theorem Grounded.settle_join_name (hg : Grounded t r) (hname : SpareName name) :
    t.settle linkLimit (t.startOf (r.path.join ⟨name⟩)) (r.path.join ⟨name⟩).parts =
      t.settle linkLimit r [name] := by
  rw [hg.settle_join (Path.isAbsolute_of_slashFree hname.slashFree),
    Path.parts_of_slashFree hname.slashFree]
  by_cases hr : Short r.path
  · apply hg.settle_names hr
    rw [needDirectory_name hname.name]
    exact nofun
  · rw [hg.settle_names_of_long hr,
      settle_refused hname.name (look_of_long fun h => hr h.of_child)]

/-- A name behind a spelling of a directory leads where the name leads in the directory, unless
the spelling has used up the links. -/
theorem Sound.resolve_join_name (ht : Sound t) (hp : t.resolve p = .ok r)
    (hname : SpareName name) : t.resolve (p.join ⟨name⟩) = .error .tooManyLinks ∨
      t.resolve (p.join ⟨name⟩) = t.resolve (r.path.join ⟨name⟩) := by
  obtain ⟨hu, ⟨_, hw⟩, _⟩ := resolve_eq_ok_iff.mp hp
  obtain ⟨left, hleft, hspelled⟩ := settle_join_name hp hname
  have hground := ht.grounded_of_walk hw
  have hr := hground.unusable?_path (ht.nulFree_of_grounded hground)
  have hstart : t.DirectoryAt (t.startOf (p.join ⟨name⟩)) := by
    rw [startOf_join (unusable?_eq_none_iff.mp hu).1 hname.slashFree]
    exact hw.directoryAt (parts_ne_nil p)
  have hroot : t.DirectoryAt (t.startOf (r.path.join ⟨name⟩)) :=
    directoryAt_startOf (Path.isAbsolute_join (Path.isAbsolute_path r) _)
  rw [resolve_eq_map (unusable?_join hu hname) hstart,
    resolve_eq_map (unusable?_join hr hname) hroot, hspelled, hground.settle_join_name hname]
  -- Both spellings have come to the directory. The first has fewer links left for the name.
  rcases settle_of_fewer_links hleft r [name] with hmany | hsame
  · left
    rw [hmany]
    rfl
  · right
    exact hsame

/-- The path of a location that an absolute path leads to leads there as well. -/
theorem Sound.resolve_path (ht : Sound t) (hp : p.isAbsolute = true) (h : t.resolve p = .ok l) :
    t.resolve l.path = .ok l := by
  have hground := grounded_of_resolve hp h
  have hu := hground.unusable?_path (ht.nulFree_of_grounded hground)
  have hstart := directoryAt_startOf (t := t) (Path.isAbsolute_path l)
  rw [resolve_eq_map hu hstart, hground.settle_path (short_of_resolve hp h)]
  rfl

end FileTree

open FileTree

/-! ## Verdicts -/

namespace Fence

variable {f : Fence} {t : FileTree} {p q root : Path} {c store : Location}
  {answer : Except FenceFailure Location}

/-- The path that is looked up: an absolute path itself, and any other seen from the root. -/
def sought (f : Fence) (p : Path) : Path := if p.isAbsolute then p else f.root.path.join p

theorem join_eq_sought (f : Fence) (p : Path) : f.root.path.join p = f.sought p := by
  unfold sought
  split
  · rename_i hp
    exact Path.join_of_isAbsolute hp _
  · rfl

/-- What the location of a path has to do with the answer. The version store is looked up in
the directory of the root. -/
inductive Judges (f : Fence) (t : FileTree) (p : Path) : Except FenceFailure Location → Prop
  | unresolved {refusal : Refusal} : t.resolve (f.sought p) = .error refusal →
      Judges f t p (.error (.unresolved (f.sought p) refusal))
  | outside {c : Location} : t.resolve (f.sought p) = .ok c → ¬ c.Within f.root →
      Judges f t p (.error (.outside c f.root))
  | offLimits {c store : Location} : t.resolve (f.sought p) = .ok c → c.Within f.root →
      t.resolve (f.root.path.join storeName) = .ok store → c.Within store →
      Judges f t p (.error (.offLimits c store))
  | admitted {c : Location} : t.resolve (f.sought p) = .ok c → c.Within f.root →
      (∀ store, t.resolve (f.root.path.join storeName) = .ok store → ¬ c.Within store) →
      Judges f t p (.ok c)

theorem locate_of_judges (h : around t root = .ok f) (hj : f.Judges t p answer) :
    f.locate t p = answer := by
  cases hj with
  | unresolved hc =>
    rw [← join_eq_sought] at hc ⊢
    exact locate_of_unresolved hc
  | outside hc hout =>
    rw [← join_eq_sought] at hc
    exact locate_of_outside hc hout
  | offLimits hc hin hs hwithin =>
    rw [← join_eq_sought] at hc
    exact locate_of_barred hc hin ((barred_eq_some_iff h).mpr hs) hwithin
  | admitted hc hin hfree =>
    rw [← join_eq_sought] at hc
    apply locate_eq_ok_iff.mpr
    refine ⟨hc, hin, ?_⟩
    intro store hs
    exact hfree store ((barred_eq_some_iff h).mp hs)

theorem exists_judges (f : Fence) (t : FileTree) (p : Path) : ∃ answer, f.Judges t p answer := by
  cases hc : t.resolve (f.sought p) with
  | error refusal => exact ⟨_, .unresolved hc⟩
  | ok c =>
    by_cases hin : c.Within f.root
    · by_cases hbarred : ∃ store, t.resolve (f.root.path.join storeName) = .ok store ∧
          c.Within store
      · obtain ⟨store, hs, hwithin⟩ := hbarred
        exact ⟨_, .offLimits hc hin hs hwithin⟩
      · refine ⟨_, .admitted hc hin ?_⟩
        intro store hs hwithin
        exact hbarred ⟨store, hs, hwithin⟩
    · exact ⟨_, .outside hc hin⟩

/-- The answer of the fence is the one that the location leaves room for. -/
theorem locate_eq_iff (h : around t root = .ok f) :
    f.locate t p = answer ↔ f.Judges t p answer := by
  constructor
  · rintro rfl
    obtain ⟨answer, hj⟩ := exists_judges f t p
    rw [locate_of_judges h hj]
    exact hj
  · intro hj
    exact locate_of_judges h hj

/-! ## Spellings -/

/-- A location that is let pass is let pass under its own path. -/
theorem locate_path (ht : Sound t) (h : f.locate t p = .ok c) : f.locate t c.path = .ok c := by
  obtain ⟨hc, hadmits⟩ := locate_eq_ok_iff.mp h
  apply locate_eq_ok_iff.mpr
  rw [Path.join_of_isAbsolute (Path.isAbsolute_path c)]
  refine ⟨?_, hadmits⟩
  exact ht.resolve_path (Path.isAbsolute_join (Path.isAbsolute_path _) p) hc

theorem locate_congr (hp : t.resolve (f.sought p) = .ok c) (hq : t.resolve (f.sought q) = .ok c) :
    f.locate t p = f.locate t q := by
  unfold locate
  simp only [join_eq_sought, hp, hq]

/-- Nothing in the version store is let pass. -/
theorem locate_of_within_store (h : around t root = .ok f)
    (hstore : t.resolve (f.root.path.join storeName) = .ok store)
    (hc : t.resolve (f.sought p) = .ok c) (hwithin : c.Within store) :
    f.locate t p = .error (.outside c f.root) ∨ f.locate t p = .error (.offLimits c store) := by
  by_cases hin : c.Within f.root
  · right
    exact locate_of_judges h (.offLimits hc hin hstore hwithin)
  · left
    exact locate_of_judges h (.outside hc hin)

theorem spareName_storeName : SpareName ".git" := by
  have hname : IsName ".git" := ⟨by decide, by decide, by decide⟩
  have hslash : '/' ∉ ".git".toList := by decide
  exact ⟨hname, hslash, by decide⟩

/-- The version store has one place for every spelling of the root, but a spelling may lead
through too many links to get there. -/
theorem resolve_store (ht : Sound t) (h : around t root = .ok f) :
    t.resolve (root.join storeName) = .error .tooManyLinks ∨
      t.resolve (root.join storeName) = t.resolve (f.root.path.join storeName) :=
  ht.resolve_join_name (around_eq_ok_iff.mp h).1 spareName_storeName

/-- A fence decides by locations alone. A path that is not absolute is seen from the location of
the root, and the answer is told by what the path leads to: nothing, a place outside, a place
in the version store of that location, or another place inside, and then the path of the place
passes as well. So spellings of one location are answered alike, and none that leads into the
version store passes. The store itself is found under every spelling of the root that does
not lead through too many links. -/
theorem the_location_alone_decides (t : FileTree) (ht : Sound t) (root : Path) (f : Fence)
    (h : around t root = .ok f) :
    t.resolve root = .ok f.root ∧
    (∀ p answer, f.locate t p = answer ↔ f.Judges t p answer) ∧
    (∀ p c, f.locate t p = .ok c → f.locate t c.path = .ok c) ∧
    (∀ p q c, t.resolve (f.sought p) = .ok c → t.resolve (f.sought q) = .ok c →
      f.locate t p = f.locate t q) ∧
    (t.resolve (root.join storeName) = .error .tooManyLinks ∨
      t.resolve (root.join storeName) = t.resolve (f.root.path.join storeName)) ∧
    ∀ p c store, t.resolve (root.join storeName) = .ok store ∨
        t.resolve (f.root.path.join storeName) = .ok store →
      t.resolve (f.sought p) = .ok c → c.Within store →
      f.locate t p = .error (.outside c f.root) ∨ f.locate t p = .error (.offLimits c store) := by
  refine ⟨(around_eq_ok_iff.mp h).1, ?_, ?_, ?_, resolve_store ht h, ?_⟩
  · intro p answer
    exact locate_eq_iff h
  · intro p c hlocate
    exact locate_path ht hlocate
  · intro p q c hp hq
    exact locate_congr hp hq
  · intro p c store hstore hc hwithin
    apply locate_of_within_store h ?_ hc hwithin
    rcases hstore with hspelled | hstore
    · rcases resolve_store ht h with hmany | hsame
      · rw [hspelled] at hmany
        cases hmany
      · rw [← hsame, hspelled]
    · exact hstore

/-- A workspace that is reached through a link. Its version store lies behind a link as well, and
another link leads out of it, to a place with a name that begins alike. -/
def linkedTree : FileTree where
  entries := [(⟨["home"]⟩, .link ⟨"ws"⟩), (⟨["ws"]⟩, .plainDirectory),
    (⟨["ws", ".git"]⟩, .link ⟨"store"⟩), (⟨["ws", "store"]⟩, .plainDirectory),
    (⟨["ws", "store", "head"]⟩, .file [] 0o644), (⟨["ws", "notes"]⟩, .file [] 0o644),
    (⟨["ws", "out"]⟩, .link ⟨"../ws2"⟩), (⟨["ws2"]⟩, .file [] 0o644)]

def linkedFence : Fence := ⟨⟨["ws"]⟩, some ⟨["ws", "store"]⟩⟩

theorem around_linkedTree : around linkedTree ⟨"/home"⟩ = .ok linkedFence := by cbv

/-- From the link to the workspace through the link to its store and up again. -/
theorem resolve_detour :
    linkedTree.resolve (linkedFence.sought ⟨"/home/.git/../notes"⟩) = .ok ⟨["ws", "notes"]⟩ := by
  have habsolute : Path.isAbsolute ⟨"/home/.git/../notes"⟩ = true :=
    Path.isAbsolute_iff.mpr (by decide)
  have hsettle : linkedTree.settle linkLimit .root ["", "home", ".git", "..", "notes"] =
      .ok ⟨⟨["ws", "notes"]⟩, 38⟩ := by cbv
  have hparts : Path.parts ⟨"/home/.git/../notes"⟩ = ["", "home", ".git", "..", "notes"] := by
    decide
  rw [← join_eq_sought, Path.join_of_isAbsolute habsolute,
    resolve_eq_map (unusable?_eq_none_iff.mpr ⟨by decide, by decide⟩)
      (directoryAt_startOf habsolute), startOf_of_isAbsolute habsolute, hparts, hsettle]
  rfl

/-- Dots and detours do not matter, the link to the store hides nothing, and `/ws2` is outside
of `/ws`. -/
theorem the_linked_fence_sees_through_spellings :
    linkedFence.locate linkedTree ⟨"./notes"⟩ = .ok ⟨["ws", "notes"]⟩ ∧
    linkedFence.locate linkedTree ⟨"/home/.git/../notes"⟩ = .ok ⟨["ws", "notes"]⟩ ∧
    linkedFence.locate linkedTree ⟨".git/head"⟩ =
      .error (.offLimits ⟨["ws", "store", "head"]⟩ ⟨["ws", "store"]⟩) ∧
    linkedFence.locate linkedTree ⟨"out"⟩ = .error (.outside ⟨["ws2"]⟩ ⟨["ws"]⟩) ∧
    linkedFence.locate linkedTree ⟨"gone"⟩ = .error (.unresolved ⟨"/ws/gone"⟩ .notFound) := by
  have hsound : Sound linkedTree := sound_of_entries (by unfold NulFree; decide) .root
  obtain ⟨_, hdecides, _, hspelled, _⟩ :=
    the_location_alone_decides linkedTree hsound ⟨"/home"⟩ linkedFence around_linkedTree
  have hstore : linkedTree.resolve (linkedFence.root.path.join storeName) =
      .ok ⟨["ws", "store"]⟩ := by cbv
  have hnotes : linkedTree.resolve (linkedFence.sought ⟨"./notes"⟩) = .ok ⟨["ws", "notes"]⟩ := by
    cbv
  have hhead : linkedTree.resolve (linkedFence.sought ⟨".git/head"⟩) =
      .ok ⟨["ws", "store", "head"]⟩ := by cbv
  have hout : linkedTree.resolve (linkedFence.sought ⟨"out"⟩) = .ok ⟨["ws2"]⟩ := by cbv
  have hgone : linkedTree.resolve ⟨"/ws/gone"⟩ = .error .notFound := by cbv
  have hpasses : linkedFence.locate linkedTree ⟨"./notes"⟩ = .ok ⟨["ws", "notes"]⟩ := by
    apply (hdecides _ _).mpr
    refine .admitted hnotes (by decide) ?_
    intro store hs
    obtain rfl : ⟨["ws", "store"]⟩ = store := Except.ok.inj (hstore.symm.trans hs)
    decide
  refine ⟨hpasses, ?_, ?_, ?_, ?_⟩
  · rw [hspelled _ _ _ resolve_detour hnotes, hpasses]
  · apply (hdecides _ _).mpr
    exact .offLimits hhead (by decide) hstore (by decide)
  · apply (hdecides _ _).mpr
    exact .outside hout (by decide)
  · have hsought : linkedFence.sought ⟨"gone"⟩ = ⟨"/ws/gone"⟩ := by cbv
    apply (hdecides _ _).mpr
    rw [← hsought] at hgone ⊢
    exact .unresolved hgone

end Fence

end AnchoredBlocks
