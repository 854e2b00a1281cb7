-- A fence holds over every run. The location that the fence has judged is the
-- location that is written, and no write moves a link or a directory, so the
-- fence that was put up at the start is still right at the end.
import AnchoredBlocks.Proofs.PlannedEdits
import AnchoredBlocks.Proofs.Shapes

namespace AnchoredBlocks

open FileTree

/-! ## The fence -/

namespace Fence

variable {f : Fence} {t : FileTree} {p : Path} {l : Location}

theorem around_eq_ok_iff : around t p = .ok f ↔ t.resolve p = .ok f.root ∧
    f.barred = (t.resolve (f.root.path.join storeName)).toOption := by
  unfold around
  constructor
  · intro h
    split at h
    · cases h
    · rename_i root hroot
      cases h
      exact ⟨hroot, rfl⟩
  · rintro ⟨hroot, hbarred⟩
    simp only [hroot, ← hbarred]

theorem barred_eq_some_iff (h : around t p = .ok f) :
    f.barred = some l ↔ t.resolve (f.root.path.join storeName) = .ok l := by
  rw [(around_eq_ok_iff.mp h).2]
  cases t.resolve (f.root.path.join storeName) <;> simp [Except.toOption]

/-- The place lies inside, and it is not barred. -/
def Admits (f : Fence) (l : Location) : Prop :=
  l.Within f.root ∧ ∀ barred, f.barred = some barred → ¬ l.Within barred

theorem locate_eq_ok_iff : f.locate t p = .ok l ↔
    t.resolve (f.root.path.join p) = .ok l ∧ f.Admits l := by
  unfold locate Admits
  constructor
  · intro h
    simp only at h
    split at h
    · cases h
    · rename_i found hfound
      split at h
      · cases h
      · rename_i hin
        split at h
        · rename_i hnone
          cases h
          refine ⟨hfound, not_not.mp hin, fun barred hbarred => ?_⟩
          rw [hnone] at hbarred
          cases hbarred
        · rename_i barred hsome
          split at h
          · cases h
          · rename_i hout
            cases h
            refine ⟨hfound, not_not.mp hin, fun other hother => ?_⟩
            rw [hsome] at hother
            cases hother
            exact hout
  · rintro ⟨hfound, hin, hbarred⟩
    simp only [hfound, hin, not_true_eq_false, if_false]
    split
    · rfl
    · rename_i barred hsome
      rw [if_neg (hbarred barred hsome)]

theorem locate_of_unresolved {refusal : Refusal}
    (h : t.resolve (f.root.path.join p) = .error refusal) :
    f.locate t p = .error (.unresolved (f.root.path.join p) refusal) := by
  unfold locate
  simp only [h]

theorem locate_of_outside (h : t.resolve (f.root.path.join p) = .ok l)
    (hout : ¬ l.Within f.root) : f.locate t p = .error (.outside l f.root) := by
  unfold locate
  simp only [h, hout, not_false_eq_true, if_true]

theorem locate_of_barred {barred : Location} (h : t.resolve (f.root.path.join p) = .ok l)
    (hin : l.Within f.root) (hbarred : f.barred = some barred) (hwithin : l.Within barred) :
    f.locate t p = .error (.offLimits l barred) := by
  unfold locate
  simp only [h, hin, not_true_eq_false, if_false, hbarred, hwithin, if_true]

/-- What is not admitted is refused as outside or as off limits. -/
theorem exists_refusal (hl : t.resolve (f.root.path.join p) = .ok l) (h : ¬ f.Admits l) :
    ∃ refusal, f.locate t p = .error refusal ∧ (refusal = .outside l f.root ∨
      ∃ barred, f.barred = some barred ∧ refusal = .offLimits l barred) := by
  by_cases hin : l.Within f.root
  · unfold Admits at h
    simp only [hin, true_and, not_forall, not_not] at h
    obtain ⟨barred, hsome, hbarred⟩ := h
    exact ⟨_, locate_of_barred hl hin hsome hbarred, .inr ⟨barred, hsome, rfl⟩⟩
  · exact ⟨_, locate_of_outside hl hin, .inl rfl⟩

end Fence

namespace Workspace

variable {w : Workspace} {f : Fence} {t : FileTree} {d : Definition}

theorem fenced_eq_ok_iff {root : Path} : fenced t root = .ok w ↔
    ∃ f, Fence.around t root = .ok f ∧ w = ⟨f.root.path, some f⟩ := by
  unfold fenced
  cases Fence.around t root with
  | error failure => simp [Except.map]
  | ok f => simp [Except.map, eq_comm]

/-- The current directory matters behind a fence only, to files that are written down from it. -/
theorem isAdrift_eq_true_iff : w.isAdrift t d = true ↔ w.fence.isSome = true ∧
    d.fromWorkspace = false ∧ (Path.mk d.file).isAbsolute = false ∧
    ¬ t.DirectoryAt t.current := by
  rw [← currentPath?_eq_none_iff]
  simp [isAdrift, and_assoc]

theorem lookupPath_of_isAdrift (h : w.isAdrift t d = true) : w.lookupPath t d = ⟨d.file⟩ := by
  obtain ⟨_, hfrom, _, hcurrent⟩ := isAdrift_eq_true_iff.mp h
  unfold lookupPath
  rw [hfrom, currentPath?_eq_none_iff.mpr hcurrent, if_neg Bool.false_ne_true]
  cases w.fence <;> rfl

/-- A path that begins in a directory is not written down from one that was removed. -/
theorem isAdrift_of_start (h : t.DirectoryAt (t.startOf (w.lookupPath t d))) :
    w.isAdrift t d = false := by
  rw [Bool.eq_false_iff]
  intro hadrift
  obtain ⟨_, _, hrelative, hcurrent⟩ := isAdrift_eq_true_iff.mp hadrift
  rw [lookupPath_of_isAdrift hadrift, startOf_of_relative hrelative] at h
  exact hcurrent h

theorem isAdrift_of_resolve {l : Location} (h : t.resolve (w.lookupPath t d) = .ok l) :
    w.isAdrift t d = false := by
  obtain ⟨_, ⟨_, hwalk⟩, _⟩ := resolve_eq_ok_iff.mp h
  exact isAdrift_of_start (hwalk.directoryAt (parts_ne_nil _))

/-- Behind a fence a definition means the location that the fence has found. -/
theorem target_eq_ok_iff {file : Path} (hw : w.fence = some f) : w.target t d = .ok file ↔
    w.isAdrift t d = false ∧ ∃ l, f.locate t (w.lookupPath t d) = .ok l ∧ file = l.path := by
  unfold target
  simp only [hw]
  cases w.isAdrift t d with
  | true => simp
  | false => cases f.locate t (w.lookupPath t d) <;> simp [eq_comm]

theorem target_of_refused {failure : FenceFailure} (hw : w.fence = some f)
    (hcurrent : w.isAdrift t d = false)
    (h : f.locate t (w.lookupPath t d) = .error failure) :
    w.target t d = .error (.fenced failure) := by
  unfold target
  simp only [hcurrent, hw, h, Bool.false_eq_true, if_false]

/-- Behind a fence the path that is looked up begins at the root of the file tree. -/
theorem isAbsolute_lookupPath (hw : w.fence = some f) (hroot : w.root = f.root.path)
    (hcurrent : w.isAdrift t d = false) : (w.lookupPath t d).isAbsolute = true := by
  unfold lookupPath
  split
  · rw [hroot]
    exact Path.isAbsolute_join (Path.isAbsolute_path _) _
  · rename_i hfrom
    by_cases hd : t.DirectoryAt t.current
    · rw [hw, currentPath?_of_directoryAt hd]
      exact Path.isAbsolute_join (Path.isAbsolute_path _) _
    · rw [currentPath?_eq_none_iff.mpr hd, hw]
      by_contra hrelative
      rw [Bool.eq_false_iff] at hcurrent
      apply hcurrent
      rw [isAdrift_eq_true_iff, hw]
      exact ⟨rfl, by simpa using hfrom, by simpa using hrelative, hd⟩

end Workspace

/-! ## One call -/

/-- A call for one definition. Only a patch can write. -/
inductive Call where
  | preview (d : Definition)
  | plan (d : Definition)
  | locate (d : Definition)
  | patch (d : Definition)

namespace Call

def definition : Call → Definition
  | .preview d => d
  | .plan d => d
  | .locate d => d
  | .patch d => d

/-- The tree that the call leaves behind, or its failure. -/
def answer (w : Workspace) (t : FileTree) : Call → Except PatchFailure FileTree
  | .preview d => (d.preview t w).map fun _ => t
  | .plan d => (d.plan t w).map fun _ => t
  | .locate d => (d.foundBlock t w).map fun _ => t
  | .patch d => (d.patch t w).map fun done => done.2

/-- What a call does before it looks for the file: it judges the definition, and unless the
block is only to be located, it reads the replacement. -/
def opening (t : FileTree) : Call → Except PatchFailure Unit
  | .preview d => (d.freshBlock t).map fun _ => ()
  | .plan d => (d.freshBlock t).map fun _ => ()
  | .locate d => d.checkTarget.mapError .invalid
  | .patch d => (d.freshBlock t).map fun _ => ()

/-- The tree after the call. A call that fails leaves it as it was. -/
def leave (w : Workspace) (t : FileTree) (c : Call) : FileTree :=
  match c.answer w t with
  | .ok tree => tree
  | .error _ => t

/-- The tree after some calls. -/
def afterAll (w : Workspace) (t : FileTree) (calls : List Call) : FileTree :=
  calls.foldl (leave w) t

end Call

/-! ## What one call does behind a fence -/

section Fenced

variable {w : Workspace} {f : Fence} {t : FileTree} {d : Definition}

theorem Definition.readBlock_of_refused {failure : FenceFailure} (hw : w.fence = some f)
    (hcurrent : w.isAdrift t d = false)
    (h : f.locate t (w.lookupPath t d) = .error failure) :
    d.readBlock t w = .error (.fenced failure) := by
  unfold readBlock
  rw [Workspace.target_of_refused hw hcurrent h]

theorem Definition.plan_of_refused {failure : FenceFailure} (hw : w.fence = some f)
    (hcurrent : w.isAdrift t d = false)
    (h : f.locate t (w.lookupPath t d) = .error failure) :
    d.plan t w = (d.freshBlock t).bind fun _ => .error (.fenced failure) := by
  unfold plan
  rw [readBlock_of_refused hw hcurrent h]
  cases d.freshBlock t <;> rfl

/-- Where the fence refuses the file, that refusal is the answer, unless the opening has
failed before. -/
theorem Call.answer_of_refused {c : Call} {failure : FenceFailure} (hw : w.fence = some f)
    (hcurrent : w.isAdrift t c.definition = false)
    (h : f.locate t (w.lookupPath t c.definition) = .error failure) :
    c.answer w t = (c.opening t).bind fun _ => .error (.fenced failure) := by
  cases c with
  | preview d =>
    simp only [answer, opening, Definition.preview]
    rw [Definition.plan_of_refused (d := d) hw hcurrent h]
    cases d.freshBlock t <;> rfl
  | plan d =>
    simp only [answer, opening]
    rw [Definition.plan_of_refused (d := d) hw hcurrent h]
    cases d.freshBlock t <;> rfl
  | locate d =>
    simp only [answer, opening, Definition.foundBlock]
    rw [Definition.readBlock_of_refused (d := d) hw hcurrent h]
    cases d.checkTarget <;> rfl
  | patch d =>
    simp only [answer, opening, Definition.patch]
    rw [Definition.plan_of_refused (d := d) hw hcurrent h]
    cases d.freshBlock t <;> rfl

/-- A plan behind a fence is for the location that the fence has found. -/
theorem Definition.exists_location_of_plan {p : Plan} (hw : w.fence = some f)
    (h : d.plan t w = .ok p) : ∃ l, p.file = l.path ∧ Grounded t l ∧ f.Admits l := by
  obtain ⟨_, hblock⟩ := plan_eq_ok_iff.mp h
  obtain ⟨htarget, _, _⟩ := readBlock_eq_ok_iff.mp hblock
  obtain ⟨_, l, hlocate, hfile⟩ := (Workspace.target_eq_ok_iff hw).mp htarget
  obtain ⟨hresolve, hadmits⟩ := Fence.locate_eq_ok_iff.mp hlocate
  have habsolute := Path.isAbsolute_join (Path.isAbsolute_path f.root) (w.lookupPath t d)
  exact ⟨l, hfile, grounded_of_resolve habsolute hresolve, hadmits⟩

/-- A call leaves the tree as it is, or it changes one file that the fence admits. -/
theorem Call.leave_behind_fence (c : Call) (hw : w.fence = some f) : c.leave w t = t ∨
    ∃ l content mode, Grounded t l ∧ f.Admits l ∧ t.FileAt l ∧
      c.leave w t = t.put l (.file content mode) := by
  cases c with
  | preview d =>
    left
    simp only [leave, answer]
    cases d.preview t w <;> rfl
  | plan d =>
    left
    simp only [leave, answer]
    cases d.plan t w <;> rfl
  | locate d =>
    left
    simp only [leave, answer]
    cases d.foundBlock t w <;> rfl
  | patch d =>
    have hleave : (patch d).leave w t = treeAfter t (d.patch t w) := by
      simp only [leave, answer]
      cases d.patch t w <;> rfl
    rw [hleave]
    rcases d.treeAfter_patch t w with hsame | ⟨p, content, hplan, hread, hwrite⟩
    · exact .inl hsame
    · obtain ⟨l, hfile, hground, hadmits⟩ := Definition.exists_location_of_plan hw hplan
      rw [hfile] at hread hwrite
      obtain ⟨⟨mode, hentry⟩, mode', htree⟩ := hground.replaceFile_path hread hwrite
      exact .inr ⟨l, _, mode', hground, hadmits, ⟨content, mode, hentry⟩, htree⟩

end Fenced

/-! ## Runs -/

/-- Since the first tree, nothing but files that the fence admits has changed. -/
structure Fence.Held (f : Fence) (t tree : FileTree) : Prop where
  shape : SameShape t tree
  changed : ∀ l, tree.entry? l ≠ t.entry? l → Grounded t l ∧ f.Admits l ∧ t.FileAt l

theorem Fence.Held.leave {w : Workspace} {f : Fence} {t tree : FileTree} (h : f.Held t tree)
    (hw : w.fence = some f) (c : Call) : f.Held t (c.leave w tree) := by
  rcases c.leave_behind_fence hw (t := tree) with hsame | ⟨l, content, mode, hg, ha, hf, htree⟩
  · rw [hsame]
    exact h
  · rw [htree]
    refine ⟨h.shape.trans (.put hf content mode), fun k hk => ?_⟩
    by_cases hkl : k = l
    · rw [hkl]
      exact ⟨h.shape.symm.grounded hg, ha, h.shape.symm.fileAt hf⟩
    · rw [entry?_put_of_ne _ hkl] at hk
      exact h.changed k hk

theorem Fence.held_afterAll {w : Workspace} {f : Fence} (t : FileTree) (hw : w.fence = some f)
    (calls : List Call) : f.Held t (Call.afterAll w t calls) := by
  have hrun (tree : FileTree) (h : f.Held t tree) : f.Held t (Call.afterAll w tree calls) := by
    induction calls generalizing tree with
    | nil => exact h
    | cons c calls ih => exact ih _ (h.leave hw c)
  exact hrun t ⟨.refl t, fun _ hne => absurd rfl hne⟩

/-- A call that the fence refuses changes nothing. -/
theorem Call.leave_of_refused {w : Workspace} {f : Fence} {t : FileTree} {c : Call}
    {refusal : FenceFailure} (hw : w.fence = some f)
    (hcurrent : w.isAdrift t c.definition = false)
    (h : f.locate t (w.lookupPath t c.definition) = .error refusal) : c.leave w t = t := by
  unfold leave
  rw [answer_of_refused hw hcurrent h]
  cases c.opening t <;> rfl

/-- Behind a fence around the root `r`, a run of any calls changes files inside `r` only, and
none in the version store. Each changed location is a file from the start, with nothing but
directories above it. Every path leads where it led at the start. At every moment a call for
a location outside `r`, or in the version store, is refused by the fence if its opening
passes, and the tree stays as it is. -/
theorem no_run_leaves_the_fence (t : FileTree) (root : Path) (w : Workspace)
    (h : Workspace.fenced t root = .ok w) (calls : List Call) :
    ∃ r, t.resolve root = .ok r ∧
      (∀ l, entry? (Call.afterAll w t calls) l ≠ t.entry? l → l.Within r ∧
        (∀ store, t.resolve (r.path.join Fence.storeName) = .ok store → ¬ l.Within store) ∧
        (∃ content mode, t.entry? l = some (.file content mode)) ∧
        (∃ content mode, entry? (Call.afterAll w t calls) l = some (.file content mode)) ∧
        ∀ above, l.Within above → above ≠ l → t.DirectoryAt above) ∧
      (∀ p l, (Call.afterAll w t calls).resolve p = .ok l ↔ t.resolve p = .ok l) ∧
      (∀ (c : Call) (l : Location), (Call.afterAll w t calls).resolve
          (w.lookupPath (Call.afterAll w t calls) c.definition) = .ok l →
        (¬ l.Within r ∨ ∃ store, t.resolve (r.path.join Fence.storeName) = .ok store ∧
          l.Within store) →
        c.leave w (Call.afterAll w t calls) = Call.afterAll w t calls ∧
        (∀ failure, c.opening (Call.afterAll w t calls) = .error failure →
          c.answer w (Call.afterAll w t calls) = .error failure) ∧
        (c.opening (Call.afterAll w t calls) = .ok () →
          c.answer w (Call.afterAll w t calls) = .error (.fenced (.outside l r)) ∨
          ∃ store, t.resolve (r.path.join Fence.storeName) = .ok store ∧
            c.answer w (Call.afterAll w t calls) = .error (.fenced (.offLimits l store)))) := by
  obtain ⟨f, haround, rfl⟩ := Workspace.fenced_eq_ok_iff.mp h
  obtain ⟨hroot, _⟩ := Fence.around_eq_ok_iff.mp haround
  have hbarred_iff (store : Location) : f.barred = some store ↔
      t.resolve (f.root.path.join Fence.storeName) = .ok store := Fence.barred_eq_some_iff haround
  have hheld := Fence.held_afterAll (w := ⟨f.root.path, some f⟩) t rfl calls
  generalize Call.afterAll ⟨f.root.path, some f⟩ t calls = last at hheld ⊢
  refine ⟨f.root, hroot, fun l hl => ?_, fun p l => ?_, fun c l hl hout => ?_⟩
  · obtain ⟨hground, ⟨hin, hstore⟩, hfile⟩ := hheld.changed l hl
    exact ⟨hin, fun store hs => hstore store ((hbarred_iff store).mpr hs), hfile,
      hheld.shape.fileAt hfile, fun above => hground.directoryAt_above⟩
  · exact ⟨hheld.shape.symm.resolve_eq_ok, hheld.shape.resolve_eq_ok⟩
  · have hnot : ¬ f.Admits l := by
      rintro ⟨hin, hstore⟩
      rcases hout with hout | ⟨store, hs, hinside⟩
      · exact hout hin
      · exact hstore store ((hbarred_iff store).mpr hs) hinside
    have hcurrent := Workspace.isAdrift_of_resolve hl
    have habsolute := Workspace.isAbsolute_lookupPath (w := ⟨f.root.path, some f⟩) rfl rfl hcurrent
    have hjoin := Path.join_of_isAbsolute habsolute f.root.path
    rw [← hjoin] at hl
    obtain ⟨refusal, hrefused, hrefusal⟩ := Fence.exists_refusal hl hnot
    have hanswer := Call.answer_of_refused (w := ⟨f.root.path, some f⟩) rfl hcurrent hrefused
    refine ⟨Call.leave_of_refused rfl hcurrent hrefused, fun failure hfails => ?_, fun hpasses => ?_⟩
    · rw [hanswer, hfails]
      rfl
    · rw [hanswer, hpasses]
      rcases hrefusal with rfl | ⟨store, hs, rfl⟩
      · exact .inl rfl
      · exact .inr ⟨store, (hbarred_iff store).mp hs, rfl⟩

/-- The small patch, for the version store. -/
def storePatch : Definition := { smallPatch with file := ".git" }

theorem a_run_stays_in_the_small_workspace :
    Workspace.fenced smallTree ⟨"/ws"⟩ = .ok smallWorkspace ∧
    (Call.afterAll smallWorkspace smallTree [.patch smallPatch]).read ⟨"/ws/link"⟩ =
      .ok (Utf8.bytes "<k> new </k>") ∧
    (∀ l, entry? (Call.afterAll smallWorkspace smallTree [.patch smallPatch]) l ≠
      smallTree.entry? l → l.Within ⟨["ws"]⟩ ∧ ¬ l.Within ⟨["ws", ".git"]⟩) ∧
    (Call.patch storePatch).leave smallWorkspace
        (Call.afterAll smallWorkspace smallTree [.patch smallPatch]) =
      Call.afterAll smallWorkspace smallTree [.patch smallPatch] := by
  have hdone : smallPlan.carryOut smallTree = .ok (.applied ⟨"/ws/notes"⟩ 12,
      smallTree.put ⟨["ws", "notes"]⟩ (.file (Utf8.bytes "<k> new </k>") 0o644)) := by cbv
  have hafter : Call.afterAll smallWorkspace smallTree [.patch smallPatch] =
      smallTree.put ⟨["ws", "notes"]⟩ (.file (Utf8.bytes "<k> new </k>") 0o644) := by
    simp only [Call.afterAll, List.foldl_cons, List.foldl_nil, Call.leave, Call.answer,
      Definition.patch_of_plan plan_smallPatch, hdone, Except.map]
  obtain ⟨r, hr, hchanged, _, hrefused⟩ := no_run_leaves_the_fence smallTree ⟨"/ws"⟩
    smallWorkspace fenced_smallTree [.patch smallPatch]
  have hroot : smallTree.resolve ⟨"/ws"⟩ = .ok ⟨["ws"]⟩ := by cbv
  rw [hroot] at hr
  cases hr
  have hstore : smallTree.resolve (Location.path ⟨["ws"]⟩ |>.join Fence.storeName) =
      .ok ⟨["ws", ".git"]⟩ := by cbv
  refine ⟨fenced_smallTree, ?_, fun l hl => ?_, ?_⟩
  · rw [hafter]
    cbv
  · obtain ⟨hin, hout, _⟩ := hchanged l hl
    exact ⟨hin, hout _ hstore⟩
  · have hfound : (Call.afterAll smallWorkspace smallTree [.patch smallPatch]).resolve
        (smallWorkspace.lookupPath (Call.afterAll smallWorkspace smallTree [.patch smallPatch])
          storePatch) = .ok ⟨["ws", ".git"]⟩ := by
      rw [hafter]
      cbv
    exact (hrefused (.patch storePatch) _ hfound (.inr ⟨_, hstore, List.prefix_rfl⟩)).1

end AnchoredBlocks
