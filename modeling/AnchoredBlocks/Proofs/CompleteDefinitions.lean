-- What the check of a definition is good for. It is made once, before any file is looked
-- up, and what has passed it meets no later question about the same fields: the fresh
-- block has a source, and the search has no empty pattern. A definition that was read or
-- was made of words has passed already.
import AnchoredBlocks.Console.Session
import AnchoredBlocks.Proofs.FencedRuns

namespace AnchoredBlocks

/-! ## What the check says -/

/-- A replacement has no fault exactly if it has one source, and a source that is a file has
a name of more than blanks. -/
theorem Replacement.fault?_eq_none_iff {r : Replacement} : r.fault? = none ↔
    ∃ source, r.source? = some source ∧
      ∀ name, source = .file name → isBlankText name = false := by
  obtain ⟨text, file⟩ := r
  cases text with
  | some text => cases file <;> simp [fault?, source?]
  | none => cases file <;> simp [fault?, source?]

namespace Definition

variable {d : Definition}

theorem pass_eq_ok_iff {issues : List Issue} : pass issues = .ok () ↔ issues = [] := by
  cases issues <;> simp [pass]

theorem checkTarget_eq_ok_iff :
    d.checkTarget = .ok () ↔ ∀ field, Field.isMissing d field = false := by
  unfold checkTarget targetIssues
  rw [pass_eq_ok_iff, List.map_eq_nil_iff, List.filter_eq_nil_iff]
  constructor
  · intro h field
    have hall : field ∈ Field.all := by cases field <;> decide
    simpa using h field hall
  · intro h field _
    simp [h field]

/-- The check asks for all that is needed to find the block, and for the replacement. -/
theorem check_eq_ok_iff :
    d.check = .ok () ↔ d.checkTarget = .ok () ∧ d.replacement.fault? = none := by
  unfold check checkTarget issues
  rw [pass_eq_ok_iff, pass_eq_ok_iff, List.append_eq_nil_iff]
  simp

theorem checkTarget_of_check (h : d.check = .ok ()) : d.checkTarget = .ok () :=
  (check_eq_ok_iff.mp h).1

/-- Where the check has passed, the search has nothing to say about its patterns. Neither of
them takes blanks for nothing. -/
theorem filled_of_checkTarget (h : d.checkTarget = .ok ()) : d.markers.Filled := by
  have hmissing := checkTarget_eq_ok_iff.mp h
  have hanchor := hmissing .anchor
  have hstart := hmissing .startMarker
  have hstop := hmissing .endMarker
  simp only [Field.isMissing, Bool.eq_false_iff, ne_eq, String.isEmpty_iff] at hanchor hstart hstop
  exact ⟨hanchor, hstart, hstop⟩

end Definition

/-! ## The search for filled patterns -/

namespace Markers

variable {m : Markers} {text : Bytes} {pattern : Pattern}

theorem find_ne_emptyPattern (h : m.Filled) : m.find text ≠ .error (.emptyPattern pattern) := by
  intro hfind
  have hrule := find_eq_iff.mp hfind
  cases hrule with
  | emptyAnchor ha => exact h.1 ha
  | emptyStart _ hs => exact h.2.1 hs
  | emptyStop _ _ he => exact h.2.2 he

theorem findOnly_ne_emptyPattern (h : m.Filled) :
    m.findOnly text ≠ .error (.emptyPattern pattern) := by
  by_cases hmany : 2 ≤ occurrences (Utf8.bytes m.anchor) text
  · rw [findOnly_of_many h hmany]
    simp
  · rw [findOnly_eq_find (by omega)]
    exact find_ne_emptyPattern h

end Markers

/-! ## How calls fail -/

namespace Definition

variable {d : Definition} {t : FileTree} {w : Workspace} {failure : PatchFailure}

theorem findBlock_ne_emptyPattern {text : Bytes} {pattern : Pattern}
    (h : d.checkTarget = .ok ()) : d.findBlock text ≠ .error (.emptyPattern pattern) := by
  unfold findBlock
  split
  · exact Markers.findOnly_ne_emptyPattern (filled_of_checkTarget h)
  · exact Markers.find_ne_emptyPattern (filled_of_checkTarget h)

/-- Without a fresh block there is no plan, for one of two reasons. -/
theorem freshBlock_error_cases (h : d.freshBlock t = .error failure) :
    (∃ faults, d.check = .error faults ∧ failure = .invalid faults) ∨
      d.check = .ok () ∧ ∃ path refusal, failure = .unreadableReplacement path refusal := by
  unfold freshBlock at h
  split at h
  · rename_i faults hcheck
    cases h
    exact .inl ⟨faults, hcheck, rfl⟩
  · rename_i hcheck
    split at h
    · cases h
    · split at h
      · cases h
      · cases h
        exact .inr ⟨hcheck, _, _, rfl⟩
    · cases h

/-- A file is refused, or it cannot be read, or its block is not found. -/
theorem readBlock_error_cases (h : d.readBlock t w = .error failure) :
    (∃ refused, failure = .fenced refused) ∨
      (∃ file refusal, failure = .unreadableTarget file refusal) ∨
      ∃ file content e, d.findBlock content = .error e ∧ failure = .noBlock file e := by
  unfold readBlock at h
  split at h
  · rename_i htarget
    cases h
    unfold Workspace.target at htarget
    simp only at htarget
    split at htarget
    · cases htarget
      exact .inr (.inl ⟨_, _, rfl⟩)
    · split at htarget
      · cases htarget
      · split at htarget
        · cases htarget
        · cases htarget
          exact .inl ⟨_, rfl⟩
  · split at h
    · cases h
      exact .inr (.inl ⟨_, _, rfl⟩)
    · split at h
      · rename_i e hfind
        cases h
        exact .inr (.inr ⟨_, _, e, hfind, rfl⟩)
      · cases h

theorem plan_of_freshBlock_error (h : d.freshBlock t = .error failure) :
    d.plan t w = .error failure := by
  unfold plan
  rw [h]

/-- The fresh block is asked for first, and the file after it. -/
theorem plan_eq_error_iff : d.plan t w = .error failure ↔ d.freshBlock t = .error failure ∨
    (∃ fresh, d.freshBlock t = .ok fresh) ∧ d.readBlock t w = .error failure := by
  unfold plan
  cases d.freshBlock t with
  | error e => simp
  | ok fresh => cases d.readBlock t w <;> simp [Except.map]

/-- A plan fails with the faults of its definition, or without any: then the replacement or the
file is what it fails with. -/
theorem plan_error_cases (h : d.plan t w = .error failure) :
    (∃ faults, d.check = .error faults ∧ failure = .invalid faults) ∨
    d.check = .ok () ∧ ((∃ path refusal, failure = .unreadableReplacement path refusal) ∨
      d.readBlock t w = .error failure) := by
  rcases plan_eq_error_iff.mp h with hfresh | ⟨⟨fresh, hfresh⟩, hread⟩
  · rcases freshBlock_error_cases hfresh with hfaults | ⟨hcheck, hreplacement⟩
    · exact .inl hfaults
    · exact .inr ⟨hcheck, .inl hreplacement⟩
  · exact .inr ⟨(freshBlock_eq_ok_iff.mp hfresh).1, .inr hread⟩

theorem foundBlock_of_checkTarget (h : d.checkTarget = .ok ()) :
    d.foundBlock t w = d.readBlock t w := by
  unfold foundBlock
  rw [h]

theorem foundBlock_error_cases (h : d.foundBlock t w = .error failure) :
    (∃ faults, d.checkTarget = .error faults ∧ failure = .invalid faults) ∨
      d.checkTarget = .ok () ∧ d.readBlock t w = .error failure := by
  cases hcheck : d.checkTarget with
  | error faults =>
    unfold foundBlock at h
    rw [hcheck] at h
    cases h
    exact .inl ⟨faults, rfl, rfl⟩
  | ok =>
    rw [foundBlock_of_checkTarget hcheck] at h
    exact .inr ⟨rfl, h⟩

end Definition

/-- A plan that cannot be carried out fails with its edit. -/
theorem Plan.carryOut_error_cases {p : Plan} {t : FileTree} {failure : PatchFailure}
    (h : p.carryOut t = .error failure) : ∃ e, failure = .notEdited e := by
  unfold carryOut at h
  split at h
  · cases h
  · split at h
    · cases h
      exact ⟨_, rfl⟩
    · cases h
    · cases h

theorem map_eq_error_iff {ε α β : Type} {x : Except ε α} {f : α → β} {e : ε} :
    x.map f = .error e ↔ x = .error e := by
  cases x <;> simp [Except.map]

namespace Call

variable {c : Call} {t : FileTree} {w : Workspace} {failure : PatchFailure}

/-- What the call asks of its definition before anything else. -/
def verdict : Call → Except Invalid Unit
  | .preview d => d.check
  | .plan d => d.check
  | .locate d => d.checkTarget
  | .patch d => d.check

theorem checkTarget_of_verdict (h : c.verdict = .ok ()) : c.definition.checkTarget = .ok () := by
  cases c with
  | locate d => exact h
  | preview d => exact Definition.checkTarget_of_check h
  | plan d => exact Definition.checkTarget_of_check h
  | patch d => exact Definition.checkTarget_of_check h

theorem verdict_of_check (h : c.definition.check = .ok ()) : c.verdict = .ok () := by
  cases c with
  | locate d => exact Definition.checkTarget_of_check h
  | preview d => exact h
  | plan d => exact h
  | patch d => exact h

/-- A call fails with the faults of its definition, or without any: then the replacement, the
file or the edit is what it fails with. -/
theorem answer_error_cases (h : c.answer w t = .error failure) :
    (∃ faults, c.verdict = .error faults ∧ failure = .invalid faults) ∨
    c.verdict = .ok () ∧ ((∃ path refusal, failure = .unreadableReplacement path refusal) ∨
      c.definition.readBlock t w = .error failure ∨ ∃ e, failure = .notEdited e) := by
  have hplan {d : Definition} (h : d.plan t w = .error failure) :
      (∃ faults, d.check = .error faults ∧ failure = .invalid faults) ∨
      d.check = .ok () ∧ ((∃ path refusal, failure = .unreadableReplacement path refusal) ∨
        d.readBlock t w = .error failure ∨ ∃ e, failure = .notEdited e) := by
    rcases Definition.plan_error_cases h with hfaults | ⟨hcheck, hreplacement | hread⟩
    · exact .inl hfaults
    · exact .inr ⟨hcheck, .inl hreplacement⟩
    · exact .inr ⟨hcheck, .inr (.inl hread)⟩
  cases c with
  | preview d => exact hplan (map_eq_error_iff.mp (map_eq_error_iff.mp h))
  | plan d => exact hplan (map_eq_error_iff.mp h)
  | locate d =>
    rcases Definition.foundBlock_error_cases (map_eq_error_iff.mp h) with hfaults | ⟨hcheck, hread⟩
    · exact .inl hfaults
    · exact .inr ⟨hcheck, .inr (.inl hread)⟩
  | patch d =>
    have hpatch : d.patch t w = .error failure := map_eq_error_iff.mp h
    cases hp : d.plan t w with
    | error e =>
      rw [Definition.patch_of_plan_error hp] at hpatch
      cases hpatch
      exact hplan hp
    | ok p =>
      rw [Definition.patch_of_plan hp] at hpatch
      have hcheck := (Definition.freshBlock_eq_ok_iff.mp (Definition.plan_eq_ok_iff.mp hp).1).1
      exact .inr ⟨hcheck, .inr (.inr (Plan.carryOut_error_cases hpatch))⟩

/-- The faults that a call fails with are those of its definition. -/
theorem answer_eq_invalid_iff {faults : Invalid} :
    c.answer w t = .error (.invalid faults) ↔ c.verdict = .error faults := by
  constructor
  · intro h
    rcases answer_error_cases h with ⟨_, hverdict, heq⟩ | ⟨_, ⟨_, _, heq⟩ | hread | ⟨_, heq⟩⟩
    · cases heq
      exact hverdict
    · cases heq
    · rcases Definition.readBlock_error_cases hread with ⟨_, heq⟩ | ⟨_, _, heq⟩ | ⟨_, _, _, _, heq⟩
      all_goals cases heq
    · cases heq
  · intro h
    have hplan {d : Definition} (h : d.check = .error faults) :
        d.plan t w = .error (.invalid faults) := by
      apply Definition.plan_of_freshBlock_error
      unfold Definition.freshBlock
      rw [h]
    cases c with
    | preview d => exact map_eq_error_iff.mpr (map_eq_error_iff.mpr (hplan h))
    | plan d => exact map_eq_error_iff.mpr (hplan h)
    | locate d =>
      apply map_eq_error_iff.mpr
      unfold Definition.foundBlock
      rw [show d.checkTarget = .error faults from h]
    | patch d => exact map_eq_error_iff.mpr (Definition.patch_of_plan_error (hplan h))

/-- No call ever tells of an empty pattern: the check has told of it before. -/
theorem answer_ne_emptyPattern {file : Path} {pattern : Pattern} :
    c.answer w t ≠ .error (.noBlock file (.emptyPattern pattern)) := by
  intro h
  rcases answer_error_cases h with ⟨_, _, heq⟩ | ⟨hverdict, ⟨_, _, heq⟩ | hread | ⟨_, heq⟩⟩
  · cases heq
  · cases heq
  · have hcheck := checkTarget_of_verdict hverdict
    rcases Definition.readBlock_error_cases hread with
      ⟨_, heq⟩ | ⟨_, _, heq⟩ | ⟨_, content, e, hfind, heq⟩
    · cases heq
    · cases heq
    · cases heq
      exact Definition.findBlock_ne_emptyPattern hcheck hfind
  · cases heq

end Call

/-! ## Where definitions come from -/

namespace Definition

variable {read : Reader} {d : Definition}

/-- The check does not ask where a definition comes from, nor whether other anchors matter. -/
theorem check_with (d : Definition) (onlyAnchor : Bool) (origin : Option Path) :
    check { d with onlyAnchor, origin } = d.check := rfl

/-- Whatever the reader is, a definition that was read has passed the check. -/
theorem check_of_ofTextBy {text : String} (h : ofTextBy read text = .ok d) :
    d.check = .ok () := by
  unfold ofTextBy at h
  split at h
  · cases h
  · split at h
    · cases h
    · rename_i hcheck
      cases h
      exact hcheck

theorem check_of_loadBy {t : FileTree} {p : Path} (h : loadBy read t p = .ok d) :
    d.check = .ok () := by
  unfold loadBy at h
  split at h
  · cases h
  · split at h
    · cases h
    · rename_i found hfound
      cases h
      rw [check_with found]
      exact check_of_ofTextBy hfound

/-- No call for the definition fails with faults of the definition, whether other anchors
matter or not. -/
def Passes (d : Definition) : Prop :=
  ∀ (c : Call) (onlyAnchor : Bool), c.definition = { d with onlyAnchor } →
    ∀ t w faults, c.answer w t ≠ .error (.invalid faults)

theorem passes_of_check (h : d.check = .ok ()) : d.Passes := by
  intro c onlyAnchor hc t w faults hanswer
  have hcheck : c.definition.check = .ok () := by
    rw [hc, check_with d onlyAnchor d.origin, h]
  rw [Call.answer_eq_invalid_iff, Call.verdict_of_check hcheck] at hanswer
  cases hanswer

end Definition

namespace Console

variable {read : Definition.Reader} {t : FileTree} {target : TargetArguments}
  {replacement : Option ReplacementArguments} {d : Definition}

/-- The definition of words has passed the check that its command needs. A command without a
replacement takes a definition from a file that would do for others as well. -/
theorem check_of_definitionOfBy (h : definitionOfBy read t target replacement = .ok d) :
    (if replacement.isSome then d.check else d.checkTarget) = .ok () := by
  unfold definitionOfBy at h
  cases hpatch : target.patch with
  | none =>
    rw [hpatch] at h
    simp only at h
    split at h
    · cases h
    · rename_i hverdict
      cases h
      exact hverdict
  | some path =>
    rw [hpatch] at h
    simp only at h
    split at h
    · cases h
    · rename_i found hfound
      cases h
      have hcheck := Definition.check_of_loadBy hfound
      split
      · exact hcheck
      · exact Definition.checkTarget_of_check hcheck

/-! ## The law -/

/-- No call tells of an empty pattern, because the check has told of it before. What passes the
check has one source for its fresh block, and no blank file name. Whatever a reader takes from
a text, no call tells of faults in a definition that was read from a text or from a file, or
was made of the words of a command with a replacement. Where the command has none, finding the
block tells of no faults. The readers include the one of the program. -/
theorem what_has_passed_is_not_judged_again (read : Definition.Reader) :
    (∀ (c : Call) (t : FileTree) (w : Workspace) (file : Path) (pattern : Pattern),
      c.answer w t ≠ .error (.noBlock file (.emptyPattern pattern))) ∧
    (∀ d : Definition, d.check = .ok () → ∃ source, d.replacement.source? = some source ∧
      ∀ name, source = .file name → isBlankText name = false) ∧
    (∀ text d, Definition.ofTextBy read text = .ok d → d.Passes) ∧
    (∀ t p d, Definition.loadBy read t p = .ok d → d.Passes) ∧
    (∀ t target replacement d, definitionOfBy read t target (some replacement) = .ok d →
      d.Passes) ∧
    (∀ t target d, definitionOfBy read t target none = .ok d →
      ∀ t' w faults, d.foundBlock t' w ≠ .error (.invalid faults)) ∧
    Definition.ofText = Definition.ofTextBy Definition.ownReader ∧
    Definition.load = Definition.loadBy Definition.ownReader ∧
    definitionOf = definitionOfBy Definition.ownReader := by
  refine ⟨?_, ?_, ?_, ?_, ?_, ?_, rfl, rfl, rfl⟩
  · intro c t w file pattern
    exact Call.answer_ne_emptyPattern
  · intro d hcheck
    exact Replacement.fault?_eq_none_iff.mp (Definition.check_eq_ok_iff.mp hcheck).2
  · intro text d h
    exact Definition.passes_of_check (Definition.check_of_ofTextBy h)
  · intro t p d h
    exact Definition.passes_of_check (Definition.check_of_loadBy h)
  · intro t target replacement d h
    exact Definition.passes_of_check (check_of_definitionOfBy h)
  · intro t target d h t' w faults hfound
    have hcheck : d.checkTarget = .ok () := check_of_definitionOfBy h
    have hanswer : (Call.locate d).answer w t' = .error (.invalid faults) :=
      map_eq_error_iff.mpr hfound
    have hfaults : d.checkTarget = .error faults := Call.answer_eq_invalid_iff.mp hanswer
    rw [hcheck] at hfaults
    cases hfaults

/-- A patch that is anchored at a blank and leaves nothing behind. -/
def blankText : String :=
  "patch = \x7b id = 'p', file = 'f', anchor = ' ', start_marker = '<', end_marker = '>', " ++
    "replacement = \x7b text = '' \x7d \x7d"

def blankPatch : Definition :=
  { id := "p", file := "f", markers := ⟨" ", "<", ">"⟩, replacement := { text := some "" } }

theorem ofText_blankText : Definition.ofText blankText = .ok blankPatch := by cbv

/-- Blanks are an anchor, and nothing is a fresh block. -/
theorem a_blank_anchor_is_not_judged_again :
    Definition.ofText blankText = .ok blankPatch ∧
    (∀ t w faults, blankPatch.plan t w ≠ .error (.invalid faults)) ∧
    ∀ t w file pattern, blankPatch.plan t w ≠ .error (.noBlock file (.emptyPattern pattern)) := by
  obtain ⟨hnone, _, hread, _⟩ := what_has_passed_is_not_judged_again Definition.ownReader
  have hpasses : blankPatch.Passes :=
    hread blankText blankPatch ofText_blankText
  refine ⟨ofText_blankText, fun t w faults hplan => ?_, fun t w file pattern hplan => ?_⟩
  · exact hpasses (.plan blankPatch) false rfl t w faults (map_eq_error_iff.mpr hplan)
  · exact hnone (.plan blankPatch) t w file pattern (map_eq_error_iff.mpr hplan)

/-- A blank is no file, also where it is not a plain space. -/
example : Definition.check { blankPatch with file := "\u3000" } =
    .error ⟨[.missing (some "p") .file]⟩ := by
  decide

end Console

end AnchoredBlocks
