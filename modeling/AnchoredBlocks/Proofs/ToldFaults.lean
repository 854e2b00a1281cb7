-- What is told of a definition with faults. Each field that lacks its text is told once, in
-- the order of the fields, and the replacement last. No fault hides another one, so to fill
-- a field takes its own fault off the list and leaves the others as they are.
import AnchoredBlocks.Proofs.CompleteDefinitions

namespace AnchoredBlocks

/-! ## Blank texts -/

theorem trimChars_eq_nil_iff {cs : List Char} : trimChars cs = [] ↔ ∀ c ∈ cs, isBlank c = true := by
  unfold trimChars
  rw [List.reverse_eq_nil_iff, List.dropWhile_eq_nil_iff]
  constructor
  · intro h
    by_cases hne : cs.dropWhile isBlank = []
    · exact List.dropWhile_eq_nil_iff.mp hne
    · have hblank := h _ (List.mem_reverse.mpr (List.head_mem hne))
      rw [List.head_dropWhile_not isBlank hne] at hblank
      cases hblank
  · intro h c hc
    exact h c ((List.dropWhile_suffix isBlank).subset (List.mem_reverse.mp hc))

/-- A text is blank if trimming leaves nothing of it. -/
theorem isBlankText_iff {s : String} : isBlankText s = true ↔ trim s = "" := by
  unfold isBlankText trim
  rw [List.all_eq_true, ← trimChars_eq_nil_iff]
  simp [String.ext_iff]

/-! ## What has to be told -/

/-- The fault of a replacement: two sources, none, or a file without a name. -/
def Replacement.Has (r : Replacement) : ReplacementFault → Prop
  | .both => r.text ≠ none ∧ r.file ≠ none
  | .neither => r.text = none ∧ r.file = none
  | .blankFile => r.text = none ∧ ∃ name, r.file = some name ∧ trim name = ""

theorem Replacement.fault?_eq_some_iff {r : Replacement} {fault : ReplacementFault} :
    r.fault? = some fault ↔ r.Has fault := by
  obtain ⟨text, file⟩ := r
  cases text with
  | some text => cases file <;> cases fault <;> simp [fault?, Has]
  | none =>
    cases file with
    | none => cases fault <;> simp [fault?, Has]
    | some name =>
      by_cases hblank : trim name = ""
      · cases fault <;> simp [fault?, Has, isBlankText_iff, hblank]
      · cases fault <;> simp [fault?, Has, isBlankText_iff, hblank]

/-- What a check has to answer to a list of faults. -/
inductive Answers : List Issue → Except Invalid Unit → Prop
  | passes : Answers [] (.ok ())
  | refuses {issues : List Issue} : issues ≠ [] → Answers issues (.error ⟨issues⟩)

/-- The field that a fault is told of. The replacement is none. -/
def Issue.field? : Issue → Option Field
  | .missing _ field => some field
  | .badReplacement _ _ => none

/-- The same fault of a patch with this id. -/
def Issue.under (id : String) : Issue → Issue
  | .missing _ field => .missing (some id) field
  | .badReplacement _ fault => .badReplacement (some id) fault

namespace Definition

/-- The field has nothing in it. Blanks at the ends do not count for an id and for a file. -/
def Lacks (d : Definition) : Field → Prop
  | .id => trim d.id = ""
  | .file => trim d.file = ""
  | .anchor => d.markers.anchor = ""
  | .startMarker => d.markers.start = ""
  | .endMarker => d.markers.stop = ""

/-- The id that goes with a fault, without blanks at its ends. -/
def trimmedId? (d : Definition) : Option String :=
  if trim d.id = "" then none else some (trim d.id)

/-- What has to be told of a field that lacks its text. With a missing id there is no id to
tell. -/
def told (d : Definition) : Field → Issue
  | .id => .missing none .id
  | field => .missing d.trimmedId? field

/-- The fields that lack their text, each once and in their order. -/
structure Gaps (d : Definition) (fields : List Field) : Prop where
  ordered : fields.Sublist [.id, .file, .anchor, .startMarker, .endMarker]
  lacking : ∀ field, field ∈ fields ↔ d.Lacks field

/-- The definition with another text in a field. -/
def fill (d : Definition) (value : String) : Field → Definition
  | .id => { d with id := value }
  | .file => { d with file := value }
  | .anchor => { d with markers := { d.markers with anchor := value } }
  | .startMarker => { d with markers := { d.markers with start := value } }
  | .endMarker => { d with markers := { d.markers with stop := value } }

variable {d : Definition} {field other : Field}

/-! ## What is told -/

theorem isMissing_iff : Field.isMissing d field = true ↔ d.Lacks field := by
  cases field <;> simp [Field.isMissing, Lacks, isBlankText_iff]

theorem patchId?_eq (d : Definition) : d.patchId? = d.trimmedId? := by
  unfold patchId? trimmedId?
  simp only [isBlankText_iff]

theorem missing_shownId? (d : Definition) (field : Field) :
    Issue.missing (d.shownId? field) field = d.told field := by
  cases field <;> simp [shownId?, told, patchId?_eq]

theorem targetIssues_eq (d : Definition) :
    d.targetIssues = (Field.all.filter (Field.isMissing d)).map d.told := by
  unfold targetIssues
  simp only [missing_shownId?]

theorem gaps_filter (d : Definition) : d.Gaps (Field.all.filter (Field.isMissing d)) := by
  refine ⟨List.filter_sublist, ?_⟩
  intro field
  have hall : field ∈ Field.all := by cases field <;> decide
  rw [List.mem_filter, isMissing_iff, and_iff_right hall]

theorem issues_eq (d : Definition) : d.issues =
    d.targetIssues ++ (d.replacement.fault?.map (.badReplacement d.trimmedId?)).toList := by
  rw [issues, patchId?_eq]

theorem answers_pass (issues : List Issue) : Answers issues (pass issues) := by
  cases issues with
  | nil => exact .passes
  | cons issue issues => exact .refuses (List.cons_ne_nil _ _)

/-! ## One field filled -/

variable {value : String}

theorem field?_told (d : Definition) (field : Field) : (d.told field).field? = some field := by
  cases field <;> rfl

theorem lacks_fill_of_ne (h : other ≠ field) :
    (d.fill value field).Lacks other ↔ d.Lacks other := by
  cases field <;> cases other <;> simp_all [Lacks, fill]

/-- Once a field is filled, the fields that lack their text are the others that did before. -/
theorem filter_isMissing_fill (h : ¬ (d.fill value field).Lacks field) :
    Field.all.filter (Field.isMissing (d.fill value field)) =
      (Field.all.filter (Field.isMissing d)).filter (· ≠ field) := by
  rw [List.filter_filter]
  apply List.filter_congr
  intro other _
  rw [Bool.eq_iff_iff, isMissing_iff]
  by_cases hother : other = field
  · simp [hother, h]
  · simp [hother, isMissing_iff, lacks_fill_of_ne hother]

theorem told_of_ne (h : field ≠ .id) : d.told field = .missing d.trimmedId? field := by
  cases field with
  | id => exact absurd rfl h
  | _ => rfl

theorem trimmedId?_fill (h : field ≠ .id) : (d.fill value field).trimmedId? = d.trimmedId? := by
  cases field with
  | id => exact absurd rfl h
  | _ => rfl

theorem told_fill (h : field ≠ .id) : (d.fill value field).told = d.told := by
  funext other
  by_cases hother : other = .id
  · rw [hother]
    rfl
  · rw [told_of_ne hother, told_of_ne hother, trimmedId?_fill h]

/-- Of the faults, those of other fields are told of the other fields. -/
theorem filter_targetIssues (d : Definition) (field : Field) :
    d.targetIssues.filter (·.field? ≠ some field) =
      ((Field.all.filter (Field.isMissing d)).filter (· ≠ field)).map d.told := by
  rw [targetIssues_eq, List.filter_map]
  apply congrArg (List.map d.told)
  apply List.filter_congr
  intro other _
  simp [field?_told]

/-- The fault of the replacement is told of no field. -/
theorem filter_badReplacement (id : Option String) (fault : Option ReplacementFault)
    (field : Field) : (fault.map (Issue.badReplacement id)).toList.filter (·.field? ≠ some field) =
      (fault.map (Issue.badReplacement id)).toList := by
  cases fault <;> simp [Issue.field?]

theorem targetIssues_fill (hid : field ≠ .id) (h : ¬ (d.fill value field).Lacks field) :
    (d.fill value field).targetIssues = d.targetIssues.filter (·.field? ≠ some field) := by
  rw [filter_targetIssues, targetIssues_eq, told_fill hid, filter_isMissing_fill h]

theorem replacement_fill (d : Definition) (value : String) (field : Field) :
    (d.fill value field).replacement = d.replacement := by
  cases field <;> rfl

/-- To fill a field takes its fault off the list, and no other one. -/
theorem issues_fill (hid : field ≠ .id) (h : ¬ (d.fill value field).Lacks field) :
    (d.fill value field).issues = d.issues.filter (·.field? ≠ some field) := by
  rw [issues_eq, issues_eq, List.filter_append, targetIssues_fill hid h, replacement_fill,
    trimmedId?_fill hid, filter_badReplacement]

theorem told_fill_id (h : trim value ≠ "") (hother : other ≠ .id) :
    (d.fill value .id).told other = (d.told other).under (trim value) := by
  have hid : (d.fill value .id).trimmedId? = some (trim value) := if_neg h
  rw [told_of_ne hother, told_of_ne hother, hid]
  rfl

/-- To fill the id takes its fault off the list, and all others are told with the new one. -/
theorem issues_fill_id (h : trim value ≠ "") : (d.fill value .id).issues =
    (d.issues.filter (·.field? ≠ some .id)).map (Issue.under (trim value)) := by
  have hid : (d.fill value .id).trimmedId? = some (trim value) := if_neg h
  have hfilled : ¬ (d.fill value .id).Lacks .id := h
  have hfields : (d.fill value .id).targetIssues =
      (d.targetIssues.filter (·.field? ≠ some .id)).map (Issue.under (trim value)) := by
    rw [filter_targetIssues, targetIssues_eq, filter_isMissing_fill hfilled, List.map_map]
    apply List.map_congr_left
    intro other hother
    exact told_fill_id h (by simpa using (List.mem_filter.mp hother).2)
  rw [issues_eq, issues_eq, List.filter_append, List.map_append, hfields, replacement_fill, hid,
    filter_badReplacement]
  cases d.replacement.fault? <;> rfl

/-- With a good replacement only the faults of the fields are left. -/
theorem issues_with_replacement {r : Replacement} (h : r.fault? = none) :
    issues { d with replacement := r } = d.targetIssues := by
  unfold issues
  rw [h]
  exact List.append_nil _

end Definition

/-! ## How faults are shown -/

/-- The texts are joined to one, each new one on a new line. -/
inductive Joined : List String → String → Prop
  | none : Joined [] ""
  | one (text : String) : Joined [text] text
  | more {texts : List String} {rest : String} (text : String) : texts ≠ [] → Joined texts rest →
      Joined (text :: texts) (text ++ "\n" ++ rest)

theorem joined_intercalate (texts : List String) : Joined texts ("\n".intercalate texts) := by
  induction texts with
  | nil => exact .none
  | cons text texts ih =>
    cases texts with
    | nil => exact .one text
    | cons next texts =>
      rw [String.intercalate_cons_cons]
      exact .more text (List.cons_ne_nil _ _) ih

/-- The text has a last character, and that is no newline. -/
def EndsInLine (text : String) : Prop := ∃ c, text.toList.getLast? = some c ∧ c ≠ '\n'

theorem EndsInLine.append {text : String} (h : EndsInLine text) (front : String) :
    EndsInLine (front ++ text) := by
  obtain ⟨c, hc, hne⟩ := h
  refine ⟨c, ?_, hne⟩
  rw [String.toList_append, List.getLast?_append, hc]
  rfl

theorem endsInLine_message (issue : Issue) : EndsInLine issue.message := by
  have hquote : EndsInLine "'" := ⟨'\'', rfl, by decide⟩
  have hfault (fault : ReplacementFault) : EndsInLine fault.message := by
    cases fault with
    | both => exact ⟨'\'', rfl, by decide⟩
    | neither => exact ⟨'\'', rfl, by decide⟩
    | blankFile => exact ⟨'y', rfl, by decide⟩
  cases issue with
  | missing patch field =>
    cases patch with
    | none => exact hquote.append _
    | some patch => exact hquote.append _
  | badReplacement patch fault =>
    cases patch with
    | none => exact (hfault fault).append _
    | some patch => exact (hfault fault).append _

theorem Joined.endsInLine {texts : List String} {text : String} (h : Joined texts text)
    (hne : texts ≠ []) (hlines : ∀ t ∈ texts, EndsInLine t) : EndsInLine text := by
  induction h with
  | none => exact absurd rfl hne
  | one text => exact hlines text List.mem_cons_self
  | more text hrest _ ih =>
    rw [List.forall_mem_cons] at hlines
    exact (ih hrest hlines.2).append _

theorem Invalid.joined_message (e : Invalid) :
    Joined (e.issues.map Issue.message) e.message := joined_intercalate _

/-- No newline is left behind the last fault. -/
theorem Invalid.message_last (e : Invalid) : e.message.toList.getLast? ≠ some '\n' := by
  by_cases hnone : e.issues = []
  · rw [message, hnone]
    decide
  · have hlines : ∀ t ∈ e.issues.map Issue.message, EndsInLine t := by
      rw [List.forall_mem_map]
      exact fun issue _ => endsInLine_message issue
    obtain ⟨c, hc, hne⟩ := e.joined_message.endsInLine (by simpa using hnone) hlines
    rw [hc]
    simpa using hne

/-! ## The law -/

namespace Definition

/-- The faults of a definition are the fields that lack their text, each once and in their
order, and the fault of the replacement behind them. A missing id has no id to tell, and all
others are told with the trimmed id, if there is one. The checks pass without faults, and
refuse with all of them. To fill a field other than the id takes its own fault off the list and
leaves the others as they are, and so does a good replacement; a new id is told with all
faults that are left. The texts of the faults stand below one another, and no newline is
behind the last. -/
theorem all_faults_are_told_at_once (d : Definition) :
    (∃ fields, d.Gaps fields ∧ d.targetIssues = fields.map d.told) ∧
    (d.issues =
        d.targetIssues ++ (d.replacement.fault?.map (.badReplacement d.trimmedId?)).toList ∧
      ∀ fault, d.replacement.fault? = some fault ↔ d.replacement.Has fault) ∧
    (Answers d.targetIssues d.checkTarget ∧ Answers d.issues d.check ∧
      (d.check = .ok () ↔ d.checkTarget = .ok () ∧ d.replacement.fault? = none)) ∧
    (∀ field value, field ≠ .id → ¬ (d.fill value field).Lacks field →
      (d.fill value field).targetIssues = d.targetIssues.filter (·.field? ≠ some field) ∧
      (d.fill value field).issues = d.issues.filter (·.field? ≠ some field)) ∧
    (∀ value, trim value ≠ "" → (d.fill value .id).issues =
      (d.issues.filter (·.field? ≠ some .id)).map (Issue.under (trim value))) ∧
    (∀ r : Replacement, r.fault? = none → issues { d with replacement := r } = d.targetIssues) ∧
    ∀ faults : Invalid, Joined (faults.issues.map Issue.message) faults.message ∧
      faults.message.toList.getLast? ≠ some '\n' := by
  refine ⟨⟨_, gaps_filter d, targetIssues_eq d⟩, ⟨issues_eq d, ?_⟩, ⟨answers_pass _,
    answers_pass _, check_eq_ok_iff⟩, ?_, ?_, ?_, ?_⟩
  · intro fault
    exact Replacement.fault?_eq_some_iff
  · intro field value hid hfilled
    exact ⟨targetIssues_fill hid hfilled, issues_fill hid hfilled⟩
  · intro value hvalue
    exact issues_fill_id hvalue
  · intro r hr
    exact issues_with_replacement hr
  · intro faults
    exact ⟨faults.joined_message, faults.message_last⟩

/-- A definition of blanks, of which only the anchor is filled by one. -/
def blankDefinition : Definition :=
  { id := "\u3000", file := " ", markers := ⟨" ", "", ">"⟩, replacement := { file := some "\t" } }

/-- All faults of the blank definition are told, and a file takes its own one away. -/
theorem a_file_takes_one_fault_of_the_blank_definition_away :
    blankDefinition.check = .error ⟨[.missing none .id, .missing none .file,
      .missing none .startMarker, .badReplacement none .blankFile]⟩ ∧
    trim "notes" ≠ "" ∧
    (blankDefinition.fill "notes" .file).issues =
      [.missing none .id, .missing none .startMarker, .badReplacement none .blankFile] := by
  have hfilled : trim "notes" ≠ "" := by decide
  obtain ⟨_, _, _, hfill, _⟩ := all_faults_are_told_at_once blankDefinition
  exact ⟨by decide, hfilled, (hfill .file "notes" (by decide) hfilled).2.trans (by decide)⟩

end Definition

end AnchoredBlocks
