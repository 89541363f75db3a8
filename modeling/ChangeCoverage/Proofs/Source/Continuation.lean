import ChangeCoverage.Proofs.Source.MethodName
import ChangeCoverage.Proofs.Source.OpenBody

/-!
Lines that continue an expression.  The words that continue a query or a pattern are not
among the words of statements.  A line that begins with one therefore opens the scope of
a method if what follows the word has the form of a method's head, and leaves the scopes
alone otherwise.
-/

namespace ChangeCoverage.Source

/-- Words of queries and patterns; none of them can begin a declaration. -/
def continuationWords : List Text :=
  ["where", "select", "orderby", "group", "let", "join", "on", "and", "or", "not"].map
    String.toList

namespace Declaration

open Pattern Computability

variable {margin word tail name : Text}

/-- The first words of the ways to declare a type. -/
def typeWords : List Text :=
  ["class", "struct", "interface"].map String.toList ++ ["record".toList]

/-- Whether a word has no meaning of its own at the beginning of a line. -/
structure IsUnlisted (word : Text) : Prop where
  isWord : word ∈ dottedNames
  noModifier : word ∉ modifiers
  noTypeWord : word ∉ typeWords
  noStatement : word ∉ statementWords

theorem isUnlisted_of_continuation (isContinuation : word ∈ continuationWords) :
    IsUnlisted word := by
  have unlisted : ∀ word ∈ continuationWords,
      word ∈ startingWith Text.isNameStart isTypeCharacter ∧
        word ∉ modifiers ∧ word ∉ typeWords ∧ word ∉ statementWords := by
    decide +kernel
  obtain ⟨isWord, noModifier, noTypeWord, noStatement⟩ := unlisted word isContinuation
  exact ⟨isWord, noModifier, noTypeWord, noStatement⟩

/-- Whether a text goes on behind a word as the head of a method of some name. -/
def ContinuesAsMethod (tail name : Text) : Prop :=
  ∃ arguments suffix, FirstReading tail arguments suffix name ∧
    name ∉ statementWords ∧ name ∉ accessorNames

theorem typeName?_unlisted (unlisted : IsUnlisted word)
    (ends : ∀ next ∈ tail.head?, isTypeCharacter next = false) :
    typeName? (word ++ tail) = none := by
  have noModifier (isModifier : word ∈ modifiers) :
      ∀ next ∈ tail.head?, Text.isBlank next = false :=
    absurd isModifier unlisted.noModifier
  have isType := allOf_of_dottedNames unlisted.isWord
  have solid {Result : Type} (next : Following Result) (character : Char) (rest : Text)
      (accepted : isTypeCharacter character = true) :
      some Text.isBlank next (character :: rest) = none :=
    some_of_solid (isBlank_of_isTypeCharacter accepted) next rest
  have areTypes : ∀ choice ∈ ["class", "struct", "interface"].map String.toList,
      choice ∈ allOf isTypeCharacter := by decide +kernel
  have areRecords : ∀ choice ∈ ["record".toList], choice ∈ allOf isTypeCharacter := by
    decide +kernel
  have noType : word ∉ ["class", "struct", "interface"].map String.toList := fun isChoice =>
    unlisted.noTypeWord (List.mem_append_left _ isChoice)
  have noRecord : word ∉ ["record".toList] := fun isChoice =>
    unlisted.noTypeWord (List.mem_append_right _ isChoice)
  refine (leading_word unlisted.isWord ends noModifier _).trans ?_
  rw [typeKeyword, oneOf_word areTypes isType ends (solid _), if_neg noType,
    oneOf_word areRecords isType ends, if_neg noRecord]
  · rfl
  · intro character rest accepted
    rw [Pattern.optional, solid _ character rest accepted, solid _ character rest accepted]
    rfl

theorem isTypeCharacter_of_spaced (isSpaced : tail.head?.any Text.isBlank = true) :
    ∀ next ∈ tail.head?, isTypeCharacter next = false := by
  cases tail with
  | nil => cases isSpaced
  | cons blank later =>
      rintro next ⟨⟩
      exact isTypeCharacter_of_isBlank isSpaced

/-- A word with blanks behind it and further parts of a type is not among the words of
statements if it is none itself. -/
theorem append_notMem_statementWords {parts behind : Text} (noStatement : word ∉ statementWords)
    (isSpaced : (parts ++ behind).head?.any Text.isBlank = true) :
    word ++ parts ∉ statementWords := by
  have areWord : ∀ choice ∈ statementWords, choice ∈ allOf Text.isWordCharacter := by
    decide +kernel
  intro isStatement
  cases parts with
  | nil =>
      rw [List.append_nil] at isStatement
      exact noStatement isStatement
  | cons next more =>
      have isWord := areWord _ isStatement next (by simp)
      rw [Text.isWordCharacter_of_isBlank isSpaced] at isWord
      cases isWord

theorem hasEarlyArrow_firstReading {arguments suffix : Text} (isMargin : margin ∈ blanks)
    (isWord : word ∈ dottedNames) (first : FirstReading tail arguments suffix name) :
    hasEarlyArrow (margin ++ (word ++ tail)) = false := by
  obtain ⟨gap, isGap, opening, isOpening, rest, rfl⟩ := first.whole
  obtain ⟨front, isFront, rfl⟩ := cut_of_openings isOpening
  have isHead : margin ++ (word ++ (arguments ++ (suffix ++ (gap ++ (name ++ front))))) ∈
      allOf isHeadCharacter :=
    allOf_append.mpr ⟨blanks_le_head isMargin, allOf_append.mpr ⟨dottedNames_le_head isWord,
      allOf_append.mpr ⟨spacedArguments_le_head first.isArguments,
        head_of_parts first.isSuffix isGap first.isName isFront⟩⟩⟩
  simpa using hasEarlyArrow_head isHead rest

/-- A line that begins with an unlisted word declares a method exactly if it goes on as
the head of one. -/
theorem methodName?_unlisted (isMargin : margin ∈ blanks) (unlisted : IsUnlisted word)
    (isSpaced : tail.head?.any Text.isBlank = true) :
    methodName? (margin ++ (word ++ tail)) = Option.some name ↔ ContinuesAsMethod tail name := by
  have ends := isTypeCharacter_of_spaced isSpaced
  rw [methodName?_eq_some_iff, methodParts?_blanks isMargin]
  simp only [methodParts?_eq_some_iff unlisted.isWord ends
    fun isModifier => absurd isModifier unlisted.noModifier]
  constructor
  · rintro ⟨_, ⟨arguments, suffix, rfl, first⟩, isAllowed, -⟩
    exact ⟨arguments, suffix, first, isAllowed.nameAllowed, isAllowed.noAccessor⟩
  · rintro ⟨arguments, suffix, first, nameAllowed, noAccessor⟩
    obtain ⟨gap, -, opening, -, rest, rfl⟩ := first.whole
    rw [← List.append_assoc arguments] at isSpaced
    exact ⟨_, ⟨arguments, suffix, rfl, first⟩,
      ⟨append_notMem_statementWords unlisted.noStatement isSpaced, nameAllowed, noAccessor⟩,
      hasEarlyArrow_firstReading isMargin unlisted.isWord first⟩

/-- Within a type, an unlisted word is taken for the return type of a method. -/
theorem find?_unlisted (isMargin : margin ∈ blanks) (unlisted : IsUnlisted word)
    (isSpaced : tail.head?.any Text.isBlank = true) {insideType : Bool}
    {declaration : Declaration} :
    find? (margin ++ (word ++ tail)) insideType = Option.some declaration ↔
      insideType = true ∧ ∃ name, declaration = method name ∧ ContinuesAsMethod tail name := by
  have ends := isTypeCharacter_of_spaced isSpaced
  have noType : typeName? (margin ++ (word ++ tail)) = none := by
    rw [typeName?_blanks isMargin, typeName?_unlisted unlisted ends]
  rw [find?, noType]
  cases insideType with
  | false => simp
  | true =>
      rw [if_pos rfl, Option.map_eq_some_iff]
      constructor
      · rintro ⟨name, named, rfl⟩
        exact ⟨rfl, name, rfl, (methodName?_unlisted isMargin unlisted isSpaced).mp named⟩
      · rintro ⟨-, name, rfl, continues⟩
        exact ⟨name, (methodName?_unlisted isMargin unlisted isSpaced).mpr continues, rfl⟩

end Declaration

namespace ScopeState

open Declaration Pattern

variable {state : ScopeState} {line : Text} {declaration : Declaration}

/-- Whether a line belongs to the scope around it and leaves the scopes as they are. -/
structure Continues (state : ScopeState) (line : Text) : Prop where
  stack : (state.advance line).1.stack = state.stack
  current : (state.advance line).1.current = state.current
  entry : (state.advance line).2 = state.current

/-- Whether a line belongs to what it declares, and opens the scope of that unless it
ends as a statement. -/
structure Declares (state : ScopeState) (line : Text) (declaration : Declaration) : Prop where
  entry : (state.advance line).2 = state.current.enter declaration
  ended : endsStatement (state.maskedLine line) = true →
    (state.advance line).1.stack = state.stack ∧ (state.advance line).1.current = state.current
  unended : endsStatement (state.maskedLine line) = false →
    (state.advance line).1.stack = state.frameFor declaration :: state.stack ∧
      (state.advance line).1.current = state.current.enter declaration

/-- A line belongs to what it declares, and otherwise to what is open behind it. -/
theorem entry_advance (state : ScopeState) (line : Text) :
    (state.advance line).2 =
      ((state.declared? line).map state.current.enter).getD (state.passed line).current := by
  cases declares : state.declared? line with
  | none =>
      have undeclared : Declaration.find? (maskLine line state.lexState).1
          state.current.typeName.isSome = none := declares
      simp [advance, passed, start, declares, undeclared, bracesOf, maskedLine]
  | some declaration =>
      have declared : Declaration.find? (maskLine line state.lexState).1
          state.current.typeName.isSome = some declaration := declares
      simp [advance, declared, openScope]

theorem passed_of_braceless (braceless : state.bracesOf line = []) :
    state.passed line = state.start line := by
  rw [passed, braceless]
  rfl

theorem continues_of_undeclared (undeclared : state.declared? line = none)
    (braceless : state.bracesOf line = []) : state.Continues line := by
  have started : (state.start line).stack = state.stack ∧
      (state.start line).current = state.current := by
    rw [start, undeclared]
    exact ⟨rfl, rfl⟩
  have kept : (state.advance line).1 = state.start line := by
    rw [advance_eq_passed, undeclared, passed_of_braceless braceless]
    exact if_neg fun withdrawn => Bool.false_ne_true withdrawn.1
  have entry : (state.advance line).2 = (state.start line).current := by
    rw [entry_advance, undeclared, passed_of_braceless braceless]
    rfl
  refine ⟨?_, ?_, entry.trans started.2⟩
  · rw [kept, started.1]
  · rw [kept, started.2]

theorem declares_of_declared (declared : state.declared? line = some declaration)
    (braceless : state.bracesOf line = []) : state.Declares line declaration := by
  have current : (state.start line).current = state.current.enter declaration := by
    rw [start, declared]
    rfl
  have opened := stack_start declared
  refine ⟨?_, fun ended => ?_, fun unended => ?_⟩
  · rw [entry_advance, declared]
    rfl
  · have withdrawn : (state.advance line).1 = (state.start line).closeScope := by
      rw [advance_eq_passed, passed_of_braceless braceless, declared]
      exact if_pos ⟨rfl, ended, rfl⟩
    rw [withdrawn]
    exact closeScope_of_cons opened
  · have kept : (state.advance line).1 = state.start line := by
      rw [advance_eq_passed, passed_of_braceless braceless]
      exact if_neg (by simp [unended])
    rw [kept]
    exact ⟨opened, current⟩

/-- A line without braces that begins with the word of a query or a pattern leaves the
scopes alone unless it goes on, within a type, as the head of a method: then it opens
the scope of that method. -/
theorem advance_continuation {margin word tail : Text} (isMargin : margin ∈ blanks)
    (isContinuation : word ∈ continuationWords)
    (isSpaced : tail.head?.any Text.isBlank = true)
    (masked : state.maskedLine line = margin ++ (word ++ tail))
    (braceless : state.bracesOf line = []) :
    ((state.current.typeName = none ∨ ∀ name, ¬ContinuesAsMethod tail name) →
        state.Continues line) ∧
      ∀ name, state.current.typeName.isSome = true → ContinuesAsMethod tail name →
        state.Declares line (.method name) := by
  have unlisted := isUnlisted_of_continuation isContinuation
  have declared {declaration : Declaration} :
      state.declared? line = some declaration ↔ state.current.typeName.isSome = true ∧
        ∃ name, declaration = .method name ∧ ContinuesAsMethod tail name := by
    rw [declared?, masked]
    exact find?_unlisted isMargin unlisted isSpaced
  constructor
  · intro noMethod
    apply continues_of_undeclared _ braceless
    rw [Option.eq_none_iff_forall_ne_some]
    intro declaration found
    obtain ⟨insideType, name, -, continues⟩ := declared.mp found
    rcases noMethod with outside | noName
    · rw [outside] at insideType
      cases insideType
    · exact noName name continues
  · intro name insideType continues
    exact declares_of_declared (declared.mpr ⟨insideType, name, rfl, continues⟩) braceless

/-- The state behind the first line of a method M in a type A. -/
def insideM : ScopeState where
  depth := 2
  stack := { declaration := .method ['M'], entryDepth := 1, previous := insideA.current } ::
    insideA.stack
  current := { typeName := some ['A'], methodName := some ['M'] }

theorem after_methodLine :
    after {} ["class A \x7b".toList, "void M() \x7b".toList] = insideM := by
  decide +kernel

theorem advance_continuation_where :
    insideM.Continues " where x > 0".toList ∧
      insideM.Declares " where F(x)".toList (.method ['F']) := by
  have isContinuation : "where".toList ∈ continuationWords := by decide +kernel
  have isMargin : [' '] ∈ blanks := by decide
  constructor
  · have noMethod (name : Text) : ¬ContinuesAsMethod " x > 0".toList name := by
      intro continues
      have unlisted := isUnlisted_of_continuation isContinuation
      have named := (methodName?_unlisted isMargin unlisted (by decide)).mpr continues
      have unnamed : methodName? ([' '] ++ ("where".toList ++ " x > 0".toList)) = none := by
        decide +kernel
      rw [unnamed] at named
      cases named
    exact (advance_continuation isMargin isContinuation (by decide) (by decide +kernel)
      (by decide +kernel)).1 (.inr noMethod)
  · have continues : ContinuesAsMethod " F(x)".toList ['F'] := by
      have nothing : [] ∈ blanks := by decide
      have noSuffix : [] ∈ plainSuffixes :=
        Language.append_mem_mul (Language.nil_mem_kstar ranks) (.inr rfl)
      have isGap : [' '] ∈ gaps := mem_startingWith.mpr (by decide)
      have isName : ['F'] ∈ names := mem_startingWith.mpr (by decide)
      have first := firstReading_plain (.inr rfl) noSuffix isGap isName (.inr rfl) nothing
        "x)".toList
      exact ⟨[], [], first, by decide +kernel, by decide +kernel⟩
    exact (advance_continuation isMargin isContinuation (by decide) (by decide +kernel)
      (by decide +kernel)).2 ['F'] rfl continues

/-- A call behind such a word opens a scope in the middle of a method. -/
theorem not_advance_continuation :
    ¬∀ (before : List Text) (line margin word tail : Text),
      (after {} before).current.typeName.isSome = true → margin ∈ blanks →
        word ∈ continuationWords → tail.head?.any Text.isBlank = true →
        (after {} before).maskedLine line = margin ++ (word ++ tail) →
        (after {} before).bracesOf line = [] → (after {} before).Continues line := by
  intro continues
  have kept := continues ["class A \x7b".toList, "void M() \x7b".toList] "where F(x)".toList
    [] "where".toList " F(x)".toList
  rw [after_methodLine] at kept
  have stack := (kept rfl (by decide) (by decide +kernel) (by decide) (by decide +kernel)
    (by decide +kernel)).stack
  revert stack
  decide +kernel

end ScopeState

end ChangeCoverage.Source
