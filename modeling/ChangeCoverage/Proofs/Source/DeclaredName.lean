import ChangeCoverage.Proofs.Source.Continuation
import ChangeCoverage.Proofs.Source.ScopeStack

/-!
The names of declarations.  A line declares a type exactly if it begins as one does, and
looks like a method exactly if it begins as one does; either way the name is an
identifier.  What lines belong to is therefore named by identifiers throughout a file.
-/

namespace ChangeCoverage.Source

namespace Declaration

open Pattern Computability

section Languages

def isUnbracketed (character : Char) : Bool :=
  character ≠ ']'

/-- An attribute in its brackets, with the blanks behind it. -/
def attributeLists : Language Char :=
  only '[' * (allOf isUnbracketed * (only ']' * blanks))

/-- What may stand before a declaration. -/
def leads : Language Char :=
  blanks * (attributeLists∗ * (modifierWords * gaps)∗)

def typeKeywords : Language Char :=
  anyOf (["class", "struct", "interface"].map String.toList) +
    anyOf ["record".toList] * (gaps * anyOf (["class", "struct"].map String.toList) + 1)

/-- What leads up to the name of a type. -/
def typeLeads : Language Char :=
  leads * (typeKeywords * gaps)

/-- What leads up to the gap before the name of a method. -/
def returnTypeLeads : Language Char :=
  leads * (dottedNames * ((blanks * argumentLists + 1) * suffixes))

end Languages

section Patterns

variable {Result : Type}

theorem not_nil_mem_attributeLists : [] ∉ attributeLists := by
  intro empty
  obtain ⟨_, rfl, _, _, whole⟩ := Language.mem_mul.mp empty
  cases whole

theorem not_nil_mem_modifierWords_gaps : [] ∉ modifierWords * gaps := by
  intro empty
  obtain ⟨_, _, _, ⟨_, _, rfl, -⟩, whole⟩ := Language.mem_mul.mp empty
  exact List.append_ne_nil_of_right_ne_nil _ (List.cons_ne_nil _ _) whole

theorem reads_gap : Reads (some Text.isBlank : Pattern Result) gaps :=
  reads_startingWith Text.isBlank Text.isBlank

theorem reads_identifier : Reads (identifier : Pattern Result) names :=
  reads_startingWith Text.isNameStart Text.isWordCharacter

theorem reads_leading : Reads (leading : Pattern Result) leads := by
  have reads_attribute : Reads (fun following : Following Result =>
      literal '[' (many isUnbracketed (literal ']' (many Text.isBlank following))))
        attributeLists :=
    (reads_literal '[').seq ((readsLongest_many isUnbracketed).reads.seq
      ((reads_literal ']').seq (readsLongest_many Text.isBlank).reads))
  have reads_modifier : Reads (modifier : Pattern Result) (modifierWords * gaps) :=
    (reads_oneOf modifiers).seq reads_gap
  exact (readsLongest_many Text.isBlank).reads.seq
    ((reads_attribute.repeated not_nil_mem_attributeLists).seq
      (reads_modifier.repeated not_nil_mem_modifierWords_gaps))

theorem reads_typeKeyword : Reads (typeKeyword : Pattern Result) typeKeywords :=
  (reads_oneOf _).orElse ((reads_oneOf _).seq (reads_gap.seq (reads_oneOf _)).optional)

theorem reads_typeLead :
    Reads (fun following : Following Result => leading (typeKeyword (some Text.isBlank following)))
      typeLeads :=
  reads_leading.seq (reads_typeKeyword.seq reads_gap)

theorem reads_returnType :
    Reads (returnType : Pattern Result)
      (dottedNames * ((blanks * argumentLists + 1) * suffixes)) :=
  ((reads_startingWith Text.isNameStart isTypeCharacter).seq
    (readsLongest_arguments.reads.seq reads_suffix) :)

end Patterns

section Forms

variable {masked name : Text} {parts : Text × Text}

theorem typeName?_sound (found : typeName? masked = Option.some name) :
    ∃ lead ∈ typeLeads, name ∈ names ∧ lead ++ name <+: masked := by
  obtain ⟨lead, isLead, afterLead, rfl, named⟩ := reads_typeLead.sound found
  obtain ⟨_, isName, rest, rfl, returned⟩ := reads_identifier.captured_sound named
  cases returned
  exact ⟨lead, isLead, isName, rest, List.append_assoc lead name rest⟩

/-- A line declares a type exactly if it begins as one does. -/
theorem isSome_typeName?_iff :
    (typeName? masked).isSome = true ↔ ∃ front ∈ typeLeads * names, front <+: masked := by
  constructor
  · intro declares
    obtain ⟨name, found⟩ := Option.isSome_iff_exists.mp declares
    obtain ⟨lead, isLead, isName, begins⟩ := typeName?_sound found
    exact ⟨lead ++ name, Language.append_mem_mul isLead isName, begins⟩
  · rintro ⟨front, isFront, rest, rfl⟩
    obtain ⟨lead, isLead, name, isName, rfl⟩ := Language.mem_mul.mp isFront
    rw [List.append_assoc]
    exact reads_typeLead.complete isLead (reads_identifier.captured_complete isName rfl)

theorem methodParts?_sound (found : methodParts? masked = Option.some parts) :
    ∃ lead ∈ returnTypeLeads, ∃ gap ∈ gaps, ∃ opening ∈ openings, parts.2 ∈ names ∧
      lead ++ (gap ++ (parts.2 ++ opening)) <+: masked := by
  obtain ⟨lead, isLead, _, rfl, typed⟩ := reads_leading.sound found
  obtain ⟨type, isType, _, rfl, named⟩ := reads_returnType.captured_sound typed
  obtain ⟨gap, isGap, name, isName, opening, isOpening, rest, rfl, rfl⟩ := nameHead_sound named
  refine ⟨lead ++ type, Language.append_mem_mul isLead isType, gap, isGap, opening, isOpening,
    isName, rest, ?_⟩
  simp only [List.append_assoc]

/-- A line looks like a method exactly if it begins as one does. -/
theorem isSome_methodParts?_iff :
    (methodParts? masked).isSome = true ↔
      ∃ front ∈ returnTypeLeads * (gaps * (names * openings)), front <+: masked := by
  constructor
  · intro declares
    obtain ⟨parts, found⟩ := Option.isSome_iff_exists.mp declares
    obtain ⟨lead, isLead, gap, isGap, opening, isOpening, isName, begins⟩ :=
      methodParts?_sound found
    have isHead := Language.append_mem_mul isGap (Language.append_mem_mul isName isOpening)
    exact ⟨_, Language.append_mem_mul isLead isHead, begins⟩
  · rintro ⟨front, isFront, rest, rfl⟩
    obtain ⟨_, isTyped, _, isHead, rfl⟩ := Language.mem_mul.mp isFront
    obtain ⟨lead, isLead, type, isType, rfl⟩ := Language.mem_mul.mp isTyped
    obtain ⟨gap, isGap, _, isNamed, rfl⟩ := Language.mem_mul.mp isHead
    obtain ⟨name, isName, opening, isOpening, rfl⟩ := Language.mem_mul.mp isNamed
    simp only [List.append_assoc]
    apply reads_leading.complete isLead
    apply reads_returnType.captured_complete isType
    exact nameHead_complete isGap isName isOpening type rest

end Forms

def name : Declaration → Text
  | type given => given
  | method given => given

/-- Whatever is declared has an identifier for its name. -/
theorem name_mem_names_of_find? {masked : Text} {insideType : Bool} {declaration : Declaration}
    (found : find? masked insideType = Option.some declaration) : declaration.name ∈ names := by
  rw [find?] at found
  split at found
  next given named =>
    cases found
    obtain ⟨-, -, isName, -⟩ := typeName?_sound named
    exact isName
  next =>
    split at found
    next =>
      obtain ⟨given, named, rfl⟩ := Option.map_eq_some_iff.mp found
      obtain ⟨result, read, -⟩ := methodName?_eq_some_iff.mp named
      obtain ⟨-, -, -, -, -, -, isName, -⟩ := methodParts?_sound read
      exact isName
    next => cases found

end Declaration

open Declaration (names name_mem_names_of_find?)

/-- Whether the names in an entry are identifiers where there are any. -/
structure ScopeEntry.Named (entry : ScopeEntry) : Prop where
  typeName : ∀ name ∈ entry.typeName, name ∈ names
  methodName : ∀ name ∈ entry.methodName, name ∈ names

variable {stack : List ScopeFrame} {declaration : Declaration} {entry : ScopeEntry}

theorem named_nothing : ScopeEntry.Named {} :=
  ⟨fun _ named => (nomatch named), fun _ named => (nomatch named)⟩

theorem ScopeEntry.Named.enter (named : entry.Named) (isName : declaration.name ∈ names) :
    (entry.enter declaration).Named := by
  cases declaration with
  | type given =>
      refine ⟨?_, fun _ named => (nomatch named)⟩
      rintro _ ⟨⟩
      exact isName
  | method given =>
      refine ⟨named.typeName, ?_⟩
      rintro _ ⟨⟩
      exact isName

theorem named_entryOf (areNames : ∀ frame ∈ stack, frame.declaration.name ∈ names) :
    (entryOf stack).Named := by
  induction stack with
  | nil => exact named_nothing
  | cons top outer inductionHypothesis =>
      obtain ⟨isName, outerNames⟩ := List.forall_mem_cons.mp areNames
      rw [entryOf_cons]
      exact (inductionHypothesis outerNames).enter isName

namespace ScopeState

variable {state : ScopeState} {line : Text}

/-- Whether everything that is open has an identifier for its name, and the names in
effect are those. -/
structure Named (state : ScopeState) : Prop extends Coherent state where
  areNames : ∀ frame ∈ state.stack, frame.declaration.name ∈ names

theorem Named.current_named (named : state.Named) : state.current.Named := by
  rw [named.current]
  exact named_entryOf named.areNames

theorem Named.areNames_start (named : state.Named) (line : Text) :
    ∀ frame ∈ (state.start line).stack, frame.declaration.name ∈ names := by
  cases declares : state.declared? line with
  | none =>
      have kept : (state.start line).stack = state.stack := by
        rw [start, declares]
      rw [kept]
      exact named.areNames
  | some declaration =>
      rw [stack_start declares]
      exact List.forall_mem_cons.mpr ⟨name_mem_names_of_find? declares, named.areNames⟩

theorem Named.passed (named : state.Named) (line : Text) : (state.passed line).Named where
  toCoherent := (named.start line).foldl_passBrace _
  areNames := fun frame membership =>
    named.areNames_start line frame ((passed_suffix state line).subset membership)

theorem Named.advance (named : state.Named) (line : Text) : (state.advance line).1.Named where
  toCoherent := named.toCoherent.advance line
  areNames := by
    rcases stack_advance state line with behind | unchanged
    · rw [behind]
      exact (named.passed line).areNames
    · rw [unchanged]
      exact named.areNames

theorem Named.entry_advance (named : state.Named) (line : Text) :
    (state.advance line).2.Named := by
  rw [ScopeState.entry_advance]
  cases declares : state.declared? line with
  | none => exact (named.passed line).current_named
  | some declaration => exact named.current_named.enter (name_mem_names_of_find? declares)

theorem Named.trace (named : state.Named) (lines : List Text) :
    ∀ reached ∈ state.trace lines, reached.1.Named ∧ reached.2.Named := by
  induction lines generalizing state with
  | nil => exact fun reached membership => absurd membership List.not_mem_nil
  | cons line later inductionHypothesis =>
      exact List.forall_mem_cons.mpr
        ⟨⟨named.advance line, named.entry_advance line⟩, inductionHypothesis (named.advance line)⟩

theorem named_start : Named {} where
  toCoherent := coherent_start
  areNames := fun _ membership => absurd membership List.not_mem_nil

end ScopeState

/-- Every line of a file belongs to what is named by identifiers, if to anything. -/
theorem named_of_mem_scopeEntries {fileLines : List Text}
    (membership : entry ∈ scopeEntries fileLines) : entry.Named := by
  obtain ⟨reached, isReached, rfl⟩ := List.mem_map.mp membership
  exact (ScopeState.named_start.trace fileLines reached isReached).2

end ChangeCoverage.Source
