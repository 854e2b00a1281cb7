-- What is left alone. Of all that is done with a file tree, only an edit writes,
-- and an edit that writes changes one entry: the name of its path, which becomes
-- a file. What a link at that name led to stays, and so does everything else.
import AnchoredBlocks.DefinitionFile
import AnchoredBlocks.Proofs.PlannedEdits
import AnchoredBlocks.Proofs.Shapes
import AnchoredBlocks.Proofs.SpareFiles

namespace AnchoredBlocks

open FileTree

/-! ## One entry -/

/-- A fresh file has come to stand at the name of a path, in the directory of the path. It has
the permission bits of the old file, to which the path led, and no other entry has changed. -/
structure FileTree.Rewritten (t tree : FileTree) (p : Path) (name found : Location)
    (old fresh : Bytes) (mode : Nat) : Prop where
  directory : ∃ directory before last, t.reach p.directory = .ok directory ∧
    t.DirectoryAt directory ∧ p.parts = before ++ [last] ∧ name = directory.child last
  reach : t.reach p = .ok found
  before : t.entry? found = some (.file old mode)
  after : tree.entry? name = some (.file fresh mode)
  others : ∀ l, l ≠ name → tree.entry? l = t.entry? l
  current : tree.current = t.current
  /-- The path led through a link at the name, or there was none. -/
  link : name = found ∨
    (∃ target, t.entry? name = some (.link target)) ∧ tree.entry? found = some (.file old mode)

namespace FileTree

variable {t tree : FileTree} {p : Path} {name found : Location} {old fresh : Bytes} {mode : Nat}

theorem exists_rewritten (hread : t.read p = .ok old) (hwrite : t.replaceFile p fresh = .ok tree) :
    ∃ name found mode, Rewritten t tree p name found old fresh mode := by
  obtain ⟨found, mode, hr, he⟩ := read_eq_ok_iff.mp hread
  obtain ⟨name, hn, _, rfl⟩ := replaceFile_eq_ok_iff.mp hwrite
  obtain ⟨directory, before, last, hreach, hd, hparts, rfl⟩ := reach_directory hr he hn
  have hmode : (t.mode? p).getD privateMode = mode := by rw [mode?_of_file hr he, Option.getD_some]
  refine ⟨directory.child last, found, mode, ⟨directory, before, last, hreach, hd, hparts, rfl⟩,
    hr, he, ?_, fun l hl => entry?_put_of_ne _ hl, rfl, ?_⟩
  · rw [hmode]
    exact entry?_put_self _ (child_names_ne_nil _ _)
  · rcases file_or_link_of_nameOf hr he hn with hname | ⟨target, hlink⟩
    · exact .inl hname
    · have hne : found ≠ directory.child last := by
        rintro rfl
        rw [hlink] at he
        cases he
      exact .inr ⟨⟨target, hlink⟩, (entry?_put_of_ne _ hne).trans he⟩

/-- With other content, the entry at the name is not what it was. -/
theorem Rewritten.entry?_ne (h : Rewritten t tree p name found old fresh mode)
    (hne : fresh ≠ old) : tree.entry? name ≠ t.entry? name := by
  rw [h.after]
  rcases h.link with rfl | ⟨⟨target, hlink⟩, _⟩
  · rw [h.before]
    simpa using hne
  · rw [hlink]
    simp

/-- A file or a link stands at the location. -/
def FileOrLinkAt (t : FileTree) (l : Location) : Prop :=
  t.FileAt l ∨ ∃ target, t.entry? l = some (.link target)

theorem Rewritten.fileOrLinkAt (h : Rewritten t tree p name found old fresh mode) :
    t.FileOrLinkAt name := by
  rcases h.link with rfl | ⟨hlink, _⟩
  · exact .inl ⟨old, mode, h.before⟩
  · exact .inr hlink

end FileTree

/-! ## Operations -/

/-- Everything that is done with a file tree. -/
inductive Operation where
  | load (p : Path)
  | fence (root : Path)
  | locate (f : Fence) (p : Path)
  | freshBlock (d : Definition)
  | foundBlock (d : Definition) (w : Workspace)
  | plan (d : Definition) (w : Workspace)
  | preview (d : Definition) (w : Workspace)
  | carryOut (p : Plan)
  | patch (d : Definition) (w : Workspace)
  | edit (e : Edit)

/-- How an operation has come out. -/
inductive Upshot where
  | failed
  | passed
  | written (file : Path) (bytes : Nat)
  deriving DecidableEq, Repr

def Upshot.ofReading {ε α : Type} : Except ε α → Upshot
  | .error _ => .failed
  | .ok _ => .passed

namespace Operation

/-- The upshot of a patch, and the tree that is left. What fails has no tree to give. -/
def ofPatch (t : FileTree) : Except PatchFailure (PatchOutcome × FileTree) → Upshot × FileTree
  | .error _ => (.failed, t)
  | .ok (.applied file bytes, tree) => (.written file bytes, tree)
  | .ok (_, tree) => (.passed, tree)

def ofEdit (t : FileTree) : Except EditFailure (EditOutcome × FileTree) → Upshot × FileTree
  | .error _ => (.failed, t)
  | .ok (.written file bytes, tree) => (.written file bytes, tree)
  | .ok (.alreadyThere _, tree) => (.passed, tree)

def run (t : FileTree) : Operation → Upshot × FileTree
  | .load p => (.ofReading (Definition.load t p), t)
  | .fence root => (.ofReading (Workspace.fenced t root), t)
  | .locate f p => (.ofReading (f.locate t p), t)
  | .freshBlock d => (.ofReading (d.freshBlock t), t)
  | .foundBlock d w => (.ofReading (d.foundBlock t w), t)
  | .plan d w => (.ofReading (d.plan t w), t)
  | .preview d w => (.ofReading (d.preview t w), t)
  | .carryOut p => ofPatch t (p.carryOut t)
  | .patch d w => ofPatch t (d.patch t w)
  | .edit e => ofEdit t (e.run t)

/-- The edit that the operation comes to, if it comes to one. -/
def edit? (t : FileTree) : Operation → Option Edit
  | .carryOut p => some p.edit
  | .patch d w => (d.plan t w).toOption.map Plan.edit
  | .edit e => some e
  | _ => none

/-- The tree after some operations. -/
def afterAll (t : FileTree) (operations : List Operation) : FileTree :=
  operations.foldl (fun t o => (o.run t).2) t

/-- The operation leaves the tree as it is, or an edit has written. -/
inductive Comes (t : FileTree) : Option Edit → Upshot × FileTree → Prop
  | same {edit : Option Edit} {upshot : Upshot} :
      (∀ file bytes, upshot ≠ .written file bytes) → Comes t edit (upshot, t)
  | written {e : Edit} {tree : FileTree} :
      e.run t = .ok (.written e.file e.fresh.length, tree) →
      Comes t (some e) (.written e.file e.fresh.length, tree)

variable {t : FileTree}

theorem Comes.ofReading {ε α : Type} (edit : Option Edit) (r : Except ε α) :
    Comes t edit (.ofReading r, t) := by
  apply Comes.same
  cases r <;> exact fun _ _ => Upshot.noConfusion

theorem comes_ofEdit (e : Edit) : Comes t (some e) (ofEdit t (e.run t)) := by
  cases h : e.run t with
  | error failure => exact .same fun _ _ => Upshot.noConfusion
  | ok done =>
    obtain ⟨outcome, tree⟩ := done
    cases outcome with
    | written file bytes =>
      obtain ⟨rfl, rfl, _⟩ := Edit.run_eq_written_iff.mp h
      exact .written h
    | alreadyThere file =>
      obtain ⟨_, rfl, _⟩ := Edit.run_eq_alreadyThere_iff.mp h
      exact .same fun _ _ => Upshot.noConfusion

theorem comes_ofPatch (p : Plan) : Comes t (some p.edit) (ofPatch t (p.carryOut t)) := by
  cases h : p.carryOut t with
  | error failure => exact .same fun _ _ => Upshot.noConfusion
  | ok done =>
    obtain ⟨outcome, tree⟩ := done
    cases outcome with
    | applied file bytes =>
      obtain ⟨_, hrun⟩ := Plan.carryOut_eq_applied_iff.mp h
      obtain ⟨rfl, rfl, _⟩ := Edit.run_eq_written_iff.mp hrun
      exact .written hrun
    | alreadyApplied file =>
      obtain ⟨_, rfl, _⟩ := Plan.carryOut_eq_alreadyApplied_iff.mp h
      exact .same fun _ _ => Upshot.noConfusion
    | wouldApply file => exact absurd h Plan.carryOut_ne_wouldApply

/-- What each operation can come to. -/
theorem comes_run (t : FileTree) (o : Operation) : Comes t (o.edit? t) (o.run t) := by
  cases o with
  | load p => exact .ofReading _ _
  | fence root => exact .ofReading _ _
  | locate f p => exact .ofReading _ _
  | freshBlock d => exact .ofReading _ _
  | foundBlock d w => exact .ofReading _ _
  | plan d w => exact .ofReading _ _
  | preview d w => exact .ofReading _ _
  | carryOut p => exact comes_ofPatch p
  | patch d w =>
    simp only [run, edit?]
    cases hplan : d.plan t w with
    | error failure =>
      rw [Definition.patch_of_plan_error hplan]
      exact .same fun _ _ => Upshot.noConfusion
    | ok p =>
      rw [Definition.patch_of_plan hplan]
      exact comes_ofPatch p
  | edit e => exact comes_ofEdit e

theorem exists_replaceFile_of_written {e : Edit} {file : Path} {bytes : Nat} {tree : FileTree}
    (h : e.run t = .ok (.written file bytes, tree)) : ∃ old, t.read e.file = .ok old ∧
      t.replaceFile e.file (splice old e.start e.stop e.fresh) = .ok tree ∧
      splice old e.start e.stop e.fresh ≠ old := by
  obtain ⟨_, _, old, text, hread, hfound, hne, hwrite⟩ := Edit.run_eq_written_iff.mp h
  obtain ⟨⟨hle, _⟩, _, _, rfl, _⟩ := Edit.found_eq_ok_iff.mp hfound
  exact ⟨old, hread, hwrite, fun hsame => hne ((splice_eq_self_iff hle).mp hsame)⟩

/-- What comes to no edit, what fails and what finds nothing to do leaves the tree as it is.
What writes changes one entry: the name of its path becomes a file with the splice in it and
with the permission bits of the file that the path led to. That file stays as it is where the
name was a link, and so does every other entry. A write by way of a spare file leaves the same
tree, or it is refused and leaves the old one. It is not refused if the name of the spare file
is free and its path is short enough to be handed over. -/
theorem only_one_entry_changes (t : FileTree) (o : Operation) :
    (o.edit? t = none → (o.run t).2 = t ∧ ∀ file bytes, (o.run t).1 ≠ .written file bytes) ∧
    ((∀ file bytes, (o.run t).1 ≠ .written file bytes) → (o.run t).2 = t) ∧
    ∀ file bytes, (o.run t).1 = .written file bytes → ∃ e name found old fresh mode,
      o.edit? t = some e ∧ e.file = file ∧ e.fresh.length = bytes ∧
      fresh = old.take e.start ++ e.fresh ++ old.drop e.stop ∧
      Rewritten t (o.run t).2 file name found old fresh mode ∧
      entry? (o.run t).2 name ≠ t.entry? name ∧
      ∀ spare, SpareName spare →
        (t.replaceBySpare file spare fresh = { tree := (o.run t).2 } ∨
          ∃ refusal, t.replaceBySpare file spare fresh = { tree := t, refusal := some refusal }) ∧
        (t.entry? (name.parent.child spare) = none →
          (file.directory.join ⟨spare⟩).text.utf8ByteSize < pathLimit →
          t.replaceBySpare file spare fresh = { tree := (o.run t).2 }) := by
  have hcomes := comes_run t o
  generalize o.edit? t = edit at hcomes ⊢
  generalize o.run t = done at hcomes ⊢
  cases hcomes with
  | same hnot => exact ⟨fun _ => ⟨rfl, hnot⟩, fun _ => rfl, fun file bytes h => absurd h (hnot _ _)⟩
  | @written e tree hrun =>
    obtain ⟨old, hread, hwrite, hne⟩ := exists_replaceFile_of_written hrun
    obtain ⟨name, found, mode, hrewritten⟩ := exists_rewritten hread hwrite
    refine ⟨nofun, fun hnot => absurd rfl (hnot _ _), ?_⟩
    rintro file bytes ⟨⟩
    refine ⟨e, name, found, old, _, mode, rfl, rfl, rfl, rfl, hrewritten,
      hrewritten.entry?_ne hne, fun spare hspare => ⟨?_, fun hfree hsize => ?_⟩⟩
    · exact replaceBySpare_of_replaceFile hspare hread hwrite
    · obtain ⟨directory, _, _, hr, hd, _, rfl⟩ := hrewritten.directory
      rw [parent_child] at hfree
      exact replaceBySpare_of_free hspare hread hwrite hr hd hsize hfree

/-- An edit of the file of the small workspace, by its link. -/
def linkEdit : Edit :=
  .after ⟨"link"⟩ 0 12 (Utf8.bytes "<k> new </k>") (Utf8.bytes "<k> old </k>")

/-- The file takes the place of the link, and the file behind the link stays. -/
theorem only_the_link_changes : ∃ mode,
    ((edit linkEdit).run smallTree).1 = .written ⟨"link"⟩ 12 ∧
    entry? ((edit linkEdit).run smallTree).2 ⟨["ws", "link"]⟩ =
      some (.file (Utf8.bytes "<k> new </k>") mode) ∧
    entry? ((edit linkEdit).run smallTree).2 ⟨["ws", "notes"]⟩ =
      some (.file (Utf8.bytes "<k> old </k>") mode) ∧
    smallTree.replaceBySpare ⟨"link"⟩ "spare" (Utf8.bytes "<k> new </k>") =
      { tree := ((edit linkEdit).run smallTree).2 } := by
  have hwritten : ((edit linkEdit).run smallTree).1 = .written ⟨"link"⟩ 12 := by cbv
  obtain ⟨_, _, honly⟩ := only_one_entry_changes smallTree (edit linkEdit)
  obtain ⟨e, name, found, old, fresh, mode, he, _, _, hfresh, hrewritten, _, hspare⟩ :=
    honly _ _ hwritten
  obtain rfl : linkEdit = e := Option.some.inj he
  have hreach : smallTree.reach ⟨"link"⟩ = .ok ⟨["ws", "notes"]⟩ := by cbv
  obtain rfl : ⟨["ws", "notes"]⟩ = found := Except.ok.inj (hreach.symm.trans hrewritten.reach)
  obtain ⟨directory, before, last, hdirectory, _, hparts, hname⟩ := hrewritten.directory
  have hhere : smallTree.reach (Path.directory ⟨"link"⟩) = .ok ⟨["ws"]⟩ := by cbv
  obtain rfl : ⟨["ws"]⟩ = directory := Except.ok.inj (hhere.symm.trans hdirectory)
  have hlast : last = "link" := by
    have hend := congrArg List.getLast? hparts
    rw [List.getLast?_concat] at hend
    exact (Option.some.inj hend).symm
  have hplace : name = ⟨["ws", "link"]⟩ := by rw [hname, hlast]; rfl
  have hold : some (.file (Utf8.bytes "<k> old </k>") 0o644) = some (Entry.file old mode) :=
    hrewritten.before
  obtain ⟨rfl, rfl⟩ := Entry.file.inj (Option.some.inj hold)
  have hnew : fresh = Utf8.bytes "<k> new </k>" := hfresh.trans (by decide)
  rw [hplace, hnew] at hrewritten
  have hnotes := hrewritten.others ⟨["ws", "notes"]⟩ (by decide)
  refine ⟨0o644, hwritten, hrewritten.after, hnotes, ?_⟩
  have hname : IsName "spare" := ⟨by decide, by decide, by decide⟩
  have hslash : '/' ∉ "spare".toList := by decide
  rw [← hnew]
  refine (hspare "spare" ⟨hname, hslash, by decide⟩).2 ?_ (by cbv)
  rw [hplace]
  rfl

/-! ## Runs -/

/-- One operation puts files in place of files and links, and does nothing else. -/
theorem entry?_run (t : FileTree) (o : Operation) (l : Location) :
    entry? (o.run t).2 l = t.entry? l ∨ t.FileOrLinkAt l ∧ (o.run t).2.FileAt l := by
  have hcomes := comes_run t o
  generalize o.edit? t = edit at hcomes
  generalize o.run t = done at hcomes ⊢
  cases hcomes with
  | same => exact .inl rfl
  | written hrun =>
    obtain ⟨old, hread, hwrite, _⟩ := exists_replaceFile_of_written hrun
    obtain ⟨name, found, mode, hrewritten⟩ := exists_rewritten hread hwrite
    by_cases hl : l = name
    · rw [hl]
      exact .inr ⟨hrewritten.fileOrLinkAt, _, _, hrewritten.after⟩
    · exact .inl (hrewritten.others l hl)

/-- Whatever is done and however often, an entry that is not what it was has been a file or a
link, and is a file now. No entry comes to be, none is lost, and every directory stays. -/
theorem a_run_only_replaces_files_and_links (t : FileTree) (operations : List Operation)
    (l : Location) : entry? (afterAll t operations) l = t.entry? l ∨
      t.FileOrLinkAt l ∧ (afterAll t operations).FileAt l := by
  induction operations generalizing t with
  | nil => exact .inl rfl
  | cons o operations ih =>
    have hstep := entry?_run t o l
    rcases ih (o.run t).2 with hsame | ⟨hmid, hlast⟩
    · rcases hstep with hstep | ⟨hfirst, content, mode, hmid⟩
      · exact .inl (hsame.trans hstep)
      · exact .inr ⟨hfirst, content, mode, hsame.trans hmid⟩
    · rcases hstep with hstep | ⟨hfirst, _⟩
      · refine .inr ⟨?_, hlast⟩
        unfold FileOrLinkAt FileAt at hmid ⊢
        rwa [hstep] at hmid
      · exact .inr ⟨hfirst, hlast⟩

end Operation

end AnchoredBlocks
