import ChangeCoverage.Proofs.Source.MethodHead
import Mathlib.Data.List.Lemmas

/-!
The names of methods.  A line that starts with the head of a method, whatever its
modifiers, its return type and its own type parameters are, declares a method of the
name in front of the parenthesis, unless a word in the head rules that out.
-/

namespace ChangeCoverage.Source.Declaration

open Pattern Computability

instance (text : Text) : Decidable (text ∈ blanks) :=
  inferInstanceAs (Decidable (text ∈ allOf Text.isBlank))

section Arrow

/-- What can stand in front of the parenthesis of a method's head. -/
def isHeadCharacter (character : Char) : Bool :=
  character ≠ '(' && character ≠ '='

theorem isHeadCharacter_of_isBlank {character : Char} (blank : Text.isBlank character = true) :
    isHeadCharacter character = true := by
  rw [isHeadCharacter, Bool.and_eq_true, decide_eq_true_eq, decide_eq_true_eq]
  exact ⟨Text.ne_of_isBlank blank (by decide), Text.ne_of_isBlank blank (by decide)⟩

theorem isHeadCharacter_of_isTypeCharacter {character : Char}
    (isType : isTypeCharacter character = true) : isHeadCharacter character = true := by
  rw [isHeadCharacter, Bool.and_eq_true, decide_eq_true_eq, decide_eq_true_eq]
  constructor
  all_goals
    rintro rfl
    exact absurd isType (by decide)

theorem blanks_le_head : blanks ≤ allOf isHeadCharacter :=
  allOf_mono fun _ => isHeadCharacter_of_isBlank

theorem gaps_le_head : gaps ≤ allOf isHeadCharacter :=
  gaps_le_blanks.trans blanks_le_head

theorem dottedNames_le_head : dottedNames ≤ allOf isHeadCharacter :=
  (startingWith_le_allOf fun _ => isTypeCharacter_of_isNameStart).trans
    (allOf_mono fun _ => isHeadCharacter_of_isTypeCharacter)

theorem names_le_dottedNames : names ≤ dottedNames := by
  rintro _ ⟨first, later, rfl, starts, areWord⟩
  have areType := allOf_mono (fun _ => isTypeCharacter_of_isWordCharacter) areWord
  exact ⟨first, later, rfl, starts, areType⟩

theorem names_le_head : names ≤ allOf isHeadCharacter :=
  names_le_dottedNames.trans dottedNames_le_head

theorem argumentLists_le_head : argumentLists ≤ allOf isHeadCharacter := by
  apply mul_le_allOf (only_le_allOf (by decide))
  apply mul_le_allOf (allOf_mono _) (only_le_allOf (by decide))
  intro character isArgument
  simp only [isArgumentCharacter, Bool.not_eq_true', List.contains_eq_mem, decide_eq_false_iff_not,
    List.mem_cons, not_or] at isArgument
  simp [isHeadCharacter, isArgument.1, isArgument.2.2.1]

theorem suffixes_le_head : suffixes ≤ allOf isHeadCharacter :=
  suffixes_le_allOf (fun _ => isHeadCharacter_of_isBlank) (by decide)

theorem spacedArguments_le_head : blanks * argumentLists + 1 ≤ allOf isHeadCharacter :=
  add_le (mul_le_allOf blanks_le_head argumentLists_le_head) one_le_allOf

/-- What leads from a return type behind the name of the method. -/
theorem parts_accepted {accepts : Char → Bool} {suffix gap name behind : Text}
    (blankAccepted : ∀ character, Text.isBlank character = true → accepts character = true)
    (wordAccepted : ∀ character, Text.isWordCharacter character = true → accepts character = true)
    (marksAccepted : ['[', ',', ']', '?'] ∈ allOf accepts) (isSuffix : suffix ∈ suffixes)
    (isGap : gap ∈ gaps) (isName : name ∈ names) (accepted : behind ∈ allOf accepts) :
    suffix ++ (gap ++ (name ++ behind)) ∈ allOf accepts :=
  allOf_append.mpr ⟨suffixes_le_allOf blankAccepted marksAccepted isSuffix,
    allOf_append.mpr ⟨allOf_mono blankAccepted (gaps_le_blanks isGap),
      allOf_append.mpr ⟨allOf_mono wordAccepted (names_le_words isName), accepted⟩⟩⟩

theorem head_of_parts {suffix gap name behind : Text} (isSuffix : suffix ∈ suffixes)
    (isGap : gap ∈ gaps) (isName : name ∈ names) (isHead : behind ∈ allOf isHeadCharacter) :
    suffix ++ (gap ++ (name ++ behind)) ∈ allOf isHeadCharacter :=
  parts_accepted (fun _ => isHeadCharacter_of_isBlank)
    (fun _ isWord => isHeadCharacter_of_isTypeCharacter (isTypeCharacter_of_isWordCharacter isWord))
    (by decide) isSuffix isGap isName isHead

theorem cut_of_openings {opening : Text} (isOpening : opening ∈ openings) :
    ∃ front ∈ allOf isHeadCharacter, opening = front ++ ['('] := by
  obtain ⟨front, frontBlank, _, ⟨list, isList, _, ⟨back, backBlank, _, rfl, rfl⟩, rfl⟩, rfl⟩ :=
    Language.mem_mul.mp isOpening
  have isHead : list ∈ allOf isHeadCharacter := add_le argumentLists_le_head one_le_allOf isList
  refine ⟨front ++ (list ++ back), ?_, by simp⟩
  exact allOf_append.mpr ⟨blanks_le_head frontBlank,
    allOf_append.mpr ⟨isHead, blanks_le_head backBlank⟩⟩

/-- A text has one first parenthesis. -/
theorem head_inj {front other rest behind : Text} (isHead : front ∈ allOf isHeadCharacter)
    (otherHead : other ∈ allOf isHeadCharacter)
    (same : front ++ '(' :: rest = other ++ '(' :: behind) : front = other := by
  have stops (later : Text) : ∀ next ∈ ('(' :: later).head?, isHeadCharacter next = false := by
    rintro next ⟨⟩
    rfl
  exact (append_inj_of_allOf isHead otherHead (stops rest) (stops behind) same).1

theorem hasEarlyArrow_head {front : Text} (isHead : front ∈ allOf isHeadCharacter)
    (rest : Text) : hasEarlyArrow (front ++ '(' :: rest) = false := by
  have isFront : ∀ character ∈ front, decide (character ≠ '(') = true := by
    intro character membership
    have accepted := isHead character membership
    rw [isHeadCharacter, Bool.and_eq_true] at accepted
    exact accepted.1
  have taken : (front ++ '(' :: rest).takeWhile (· ≠ '(') = front := by
    rw [List.takeWhile_append_of_pos isFront, List.takeWhile_cons_of_neg (by simp),
      List.append_nil]
  rw [hasEarlyArrow, taken, Text.contains, Option.isSome_eq_false_iff, Option.isNone_iff_eq_none]
  by_contra arrow
  obtain ⟨⟨before, behind⟩, found⟩ := Option.ne_none_iff_exists'.mp arrow
  have membership : '=' ∈ front := by
    rw [Text.splitFirst?_sound found]
    simp
  exact absurd (isHead '=' membership) (by decide)

end Arrow

section Name

variable {masked name : Text}

/-- Whether no word rules out that a return type and a name make a method. -/
structure IsAllowed (result name : Text) : Prop where
  typeAllowed : result ∉ statementWords
  nameAllowed : name ∉ statementWords
  noAccessor : name ∉ accessorNames

theorem methodName?_eq_some_iff :
    methodName? masked = Option.some name ↔
      ∃ result, methodParts? masked = Option.some (result, name) ∧ IsAllowed result name ∧
        hasEarlyArrow masked = false := by
  rw [methodName?]
  simp only [Option.bind_eq_bind, Option.bind_eq_some_iff]
  constructor
  · rintro ⟨⟨result, found⟩, read, allowed⟩
    split at allowed
    next => cases allowed
    next isAllowed =>
      obtain rfl := Option.some.inj allowed
      simp only [Bool.or_eq_true, List.contains_iff_mem, not_or, Bool.not_eq_true] at isAllowed
      exact ⟨result, read, ⟨isAllowed.1.1.1, isAllowed.1.1.2, isAllowed.1.2⟩, isAllowed.2⟩
  · rintro ⟨result, read, isAllowed, noArrow⟩
    refine ⟨(result, name), read, if_neg ?_⟩
    simp [isAllowed.typeAllowed, isAllowed.nameAllowed, isAllowed.noAccessor, noArrow]

end Name

section Modifiers

variable {Result : Type} {result : Result} {following : Following Result}

def modifierWords : Language Char :=
  {word | word ∈ modifiers}

theorem modifierWords_le_names : modifierWords ≤ names := by
  have areNames : ∀ word ∈ modifiers,
      word ∈ startingWith Text.isNameStart Text.isWordCharacter := by
    decide +kernel
  exact areNames

theorem many_append {accepts : Char → Bool} {front rest : Text} (accepted : front ∈ allOf accepts)
    (stops : ∀ next ∈ rest.head?, accepts next = false)
    (found : following rest = Option.some result) :
    many accepts following (front ++ rest) = Option.some result := by
  induction front with
  | nil =>
      cases rest with
      | nil => exact found
      | cons next later =>
          rw [List.nil_append, many, stops next rfl]
          exact found
  | cons character others inductionHypothesis =>
      obtain ⟨here, behind⟩ := List.forall_mem_cons.mp accepted
      rw [List.cons_append, many, if_pos here, inductionHypothesis behind]
      rfl

theorem some_gap {gap rest : Text} (isGap : gap ∈ gaps)
    (solid : ∀ next ∈ rest.head?, Text.isBlank next = false)
    (found : following rest = Option.some result) :
    some Text.isBlank following (gap ++ rest) = Option.some result := by
  obtain ⟨first, later, rfl, blank, areBlank⟩ := isGap
  exact (if_pos blank).trans (many_append areBlank solid found)

theorem head?_of_names {name : Text} (isName : name ∈ names) (rest : Text) :
    (name ++ rest).head?.any Text.isNameStart = true := by
  obtain ⟨first, later, rfl, starts, -⟩ := isName
  exact starts

/-- A modifier in front of a declaration is skipped. -/
theorem leading_modifier {word gap rest : Text} (isModifier : word ∈ modifiers)
    (isGap : gap ∈ gaps) (starts : rest.head?.any Text.isNameStart = true)
    (found : leading following rest = Option.some result) :
    leading following (word ++ (gap ++ rest)) = Option.some result := by
  have isName : word ∈ names := modifierWords_le_names isModifier
  have gapEnds : ∀ next ∈ (gap ++ rest).head?, isTypeCharacter next = false := by
    obtain ⟨first, later, rfl, blank, -⟩ := isGap
    rintro next ⟨⟩
    exact isTypeCharacter_of_isBlank blank
  have shorter : rest.length < (word ++ (gap ++ rest)).length := by
    obtain ⟨first, later, rfl, -, -⟩ := isName
    simp only [List.length_append, List.length_cons]
    omega
  have again : repeated modifier following rest = Option.some result ∧
      ∀ next ∈ rest.head?, Text.isBlank next = false := by
    cases rest with
    | nil => cases starts
    | cons first later =>
        have isStart : Text.isNameStart first = true := starts
        refine ⟨(leading_of_isNameStart isStart following later).symm.trans found, ?_⟩
        rintro next ⟨⟩
        exact isBlank_of_isTypeCharacter (isTypeCharacter_of_isNameStart isStart)
  have skipped : repeated modifier following (word ++ (gap ++ rest)) = Option.some result := by
    rw [repeated, modifier_word (names_le_dottedNames isName) gapEnds, if_pos isModifier,
      some_gap isGap again.2 ((if_pos shorter).trans again.1)]
    rfl
  obtain ⟨first, later, rfl, isStart, -⟩ := isName
  exact (leading_of_isNameStart isStart following _).trans skipped

theorem leading_modifiers {lead rest : Text} (areModifiers : lead ∈ (modifierWords * gaps)∗)
    (starts : rest.head?.any Text.isNameStart = true)
    (found : leading following rest = Option.some result) :
    leading following (lead ++ rest) = Option.some result := by
  obtain ⟨pieces, rfl, arePieces⟩ := Language.mem_kstar.mp areModifiers
  clear areModifiers
  -- What is left of the line begins with a name after each modifier.
  suffices both : (pieces.flatten ++ rest).head?.any Text.isNameStart = true ∧
      leading following (pieces.flatten ++ rest) = Option.some result from both.2
  induction pieces with
  | nil => exact ⟨starts, found⟩
  | cons piece others inductionHypothesis =>
      obtain ⟨isPiece, areOthers⟩ := List.forall_mem_cons.mp arePieces
      obtain ⟨word, isModifier, gap, isGap, rfl⟩ := Language.mem_mul.mp isPiece
      obtain ⟨startsBehind, foundBehind⟩ := inductionHypothesis areOthers
      rw [List.flatten_cons, List.append_assoc, List.append_assoc]
      exact ⟨head?_of_names (modifierWords_le_names isModifier) _,
        leading_modifier isModifier isGap startsBehind foundBehind⟩

end Modifiers

section Plain

/-- Array brackets and a question mark without blanks before them. -/
def plainSuffixes : Language Char := ranks∗ * (only '?' + 1)

/-- A dotted name with type arguments, array brackets and a question mark, all of which
may be missing. -/
def returnTypes : Language Char := dottedNames * ((argumentLists + 1) * plainSuffixes)

def isFlatCharacter (character : Char) : Bool :=
  isArgumentCharacter character && character ≠ '<' && character ≠ '>'

/-- Type parameters with no further `<` or `>` among them. -/
def typeParameterLists : Language Char :=
  only '<' * (allOf isFlatCharacter * only '>')

theorem enclosed_mem {accepts : Char → Bool} {inner : Text} (accepted : inner ∈ allOf accepts)
    {opening closing : Char} :
    opening :: (inner ++ [closing]) ∈ only opening * (allOf accepts * only closing) :=
  Language.mem_mul.mpr ⟨[opening], rfl, _, Language.append_mem_mul accepted rfl, rfl⟩

theorem plainSuffixes_le_suffixes : plainSuffixes ≤ suffixes := by
  have spaced : ranks ≤ blanks * ranks := by
    intro rank isRank
    have empty : [] ∈ blanks := one_le_allOf rfl
    exact Language.append_mem_mul empty isRank
  exact mul_le_mul' (kstar_mono spaced) le_rfl

theorem typeParameterLists_le_argumentLists : typeParameterLists ≤ argumentLists := by
  have flat : allOf isFlatCharacter ≤ allOf isArgumentCharacter := by
    apply allOf_mono
    intro character isFlat
    rw [isFlatCharacter, Bool.and_eq_true, Bool.and_eq_true] at isFlat
    exact isFlat.1.1
  exact mul_le_mul' le_rfl (mul_le_mul' flat le_rfl)

theorem parameters_le_head : typeParameterLists + 1 ≤ allOf isHeadCharacter :=
  add_le (typeParameterLists_le_argumentLists.trans argumentLists_le_head) one_le_allOf

variable {arguments suffix gap name parameters space : Text}

/-- What can stand where no type arguments end. -/
def isUnclosing (character : Char) : Bool :=
  character ≠ '>'

theorem isUnclosing_of_isBlank {character : Char} (blank : Text.isBlank character = true) :
    isUnclosing character = true :=
  decide_eq_true (Text.ne_of_isBlank blank (by decide))

theorem isUnclosing_of_isWordCharacter {character : Char}
    (isWord : Text.isWordCharacter character = true) : isUnclosing character = true := by
  apply decide_eq_true
  rintro rfl
  exact absurd isWord (by decide)

theorem notMem_of_unclosing {text : Text} (unclosing : text ∈ allOf isUnclosing) :
    '>' ∉ text := fun membership => absurd (unclosing '>' membership) (by decide)

/-- Behind the name of a method, a `>` only ends its type parameters. -/
theorem blank_behind_closing {before behind : Text} (isSuffix : suffix ∈ suffixes)
    (isGap : gap ∈ gaps) (isName : name ∈ names)
    (areParameters : parameters ∈ typeParameterLists + 1) (isSpace : space ∈ blanks)
    (same : suffix ++ (gap ++ (name ++ (parameters ++ space))) = before ++ '>' :: behind) :
    behind ∈ blanks := by
  have spaceUnclosing : space ∈ allOf isUnclosing :=
    allOf_mono (fun _ => isUnclosing_of_isBlank) isSpace
  have partsUnclosing {later : Text} (unclosing : later ∈ allOf isUnclosing) :
      suffix ++ (gap ++ (name ++ later)) ∈ allOf isUnclosing :=
    parts_accepted (fun _ => isUnclosing_of_isBlank) (fun _ => isUnclosing_of_isWordCharacter)
      (by decide) isSuffix isGap isName unclosing
  rcases areParameters with ⟨_, rfl, _, ⟨flat, isFlat, _, rfl, rfl⟩, rfl⟩ | rfl
  · have flatUnclosing : '<' :: flat ∈ allOf isUnclosing := by
      refine List.forall_mem_cons.mpr ⟨by decide, allOf_mono ?_ isFlat⟩
      intro character isFlat
      rw [isFlatCharacter, Bool.and_eq_true] at isFlat
      exact isFlat.2
    have regrouped : suffix ++ (gap ++ (name ++ '<' :: flat)) ++ '>' :: space =
        before ++ '>' :: behind := by
      simpa using same
    have cut := (List.append_cons_inj_of_notMem
      (notMem_of_unclosing (partsUnclosing flatUnclosing))
      (notMem_of_unclosing spaceUnclosing)).mp regrouped
    rw [← cut.2.2]
    exact isSpace
  · have closing : '>' ∈ suffix ++ (gap ++ (name ++ ([] ++ space))) := by
      rw [same]
      simp
    exact absurd closing (notMem_of_unclosing (partsUnclosing spaceUnclosing))

theorem reading_plain (isArguments : arguments ∈ argumentLists + 1)
    (isSuffix : suffix ∈ plainSuffixes) (isGap : gap ∈ gaps) (isName : name ∈ names)
    (areParameters : parameters ∈ typeParameterLists + 1) (isSpace : space ∈ blanks)
    (rest : Text) :
    Reading
      (arguments ++ (suffix ++ (gap ++ (name ++ (parameters ++ (space ++ '(' :: rest))))))
      arguments suffix name := by
  have nothing : [] ∈ blanks := one_le_allOf rfl
  have isOpening : [] ++ (parameters ++ (space ++ ['('])) ∈ openings := by
    apply Language.append_mem_mul nothing
    refine Language.append_mem_mul ?_ (Language.append_mem_mul isSpace rfl)
    exact add_le_add_left typeParameterLists_le_argumentLists 1 areParameters
  refine ⟨?_, plainSuffixes_le_suffixes isSuffix, isName, gap, isGap, _, isOpening, rest, by simp⟩
  rcases isArguments with isList | isEmpty
  · exact .inl (Language.append_mem_mul nothing isList)
  · exact .inr isEmpty

/-- What type arguments hold beyond other text ends with a `>`. -/
theorem closing_of_arguments {later : Text}
    (areArguments : arguments ++ later ∈ blanks * argumentLists + 1) (filled : later ≠ []) :
    ∃ before, later = before ++ ['>'] := by
  rcases areArguments with isList | isEmpty
  · obtain ⟨_, _, _, ⟨_, rfl, list, ⟨_, _, _, rfl, rfl⟩, rfl⟩, ends⟩ :=
      Language.mem_mul.mp isList
    have closes := congrArg List.getLast? ends
    rw [List.getLast?_append_of_ne_nil _ filled] at closes
    apply List.getLast?_eq_some_iff.mp
    simpa [List.getLast?_cons] using closes.symm
  · exact absurd (List.append_eq_nil_iff.mp isEmpty).2 filled

/-- Where a name follows a type, the arguments of the type reach as far as they can. -/
theorem firstReading_plain (isArguments : arguments ∈ argumentLists + 1)
    (isSuffix : suffix ∈ plainSuffixes) (isGap : gap ∈ gaps) (isName : name ∈ names)
    (areParameters : parameters ∈ typeParameterLists + 1) (isSpace : space ∈ blanks)
    (rest : Text) :
    FirstReading
      (arguments ++ (suffix ++ (gap ++ (name ++ (parameters ++ (space ++ '(' :: rest))))))
      arguments suffix name := by
  refine ⟨reading_plain isArguments isSuffix isGap isName areParameters isSpace rest,
    fun others otherSuffix otherName other => ?_⟩
  by_contra longer
  have isAnySuffix : suffix ∈ suffixes := plainSuffixes_le_suffixes isSuffix
  obtain ⟨otherGap, isOtherGap, opening, isOpening, otherRest, whole⟩ := other.whole
  obtain ⟨front, frontHead, rfl⟩ := cut_of_openings isOpening
  obtain ⟨later, rfl, filled⟩ : ∃ later, others = arguments ++ later ∧ later ≠ [] := by
    rcases List.append_eq_append_iff.mp whole with ⟨later, rfl, -⟩ | ⟨more, rfl, -⟩
    · refine ⟨later, rfl, ?_⟩
      rintro rfl
      simp at longer
    · simp at longer
  obtain ⟨before, rfl⟩ := closing_of_arguments other.isArguments filled
  -- Both readings reach the same parenthesis, the other one with a `>` behind the arguments.
  have same : suffix ++ (gap ++ (name ++ (parameters ++ space))) =
      before ++ '>' :: (otherSuffix ++ (otherGap ++ (otherName ++ front))) := by
    have isHead : suffix ++ (gap ++ (name ++ (parameters ++ space))) ∈ allOf isHeadCharacter :=
      head_of_parts isAnySuffix isGap isName (allOf_append.mpr
        ⟨parameters_le_head areParameters, blanks_le_head isSpace⟩)
    have laterHead : before ++ ['>'] ∈ allOf isHeadCharacter :=
      (allOf_append.mp (spacedArguments_le_head other.isArguments)).2
    have otherHead : before ++ ['>'] ++ (otherSuffix ++ (otherGap ++ (otherName ++ front))) ∈
        allOf isHeadCharacter :=
      allOf_append.mpr ⟨laterHead,
        head_of_parts other.isSuffix isOtherGap other.isName frontHead⟩
    have reached : suffix ++ (gap ++ (name ++ (parameters ++ space))) ++ '(' :: rest =
        before ++ ['>'] ++ (otherSuffix ++ (otherGap ++ (otherName ++ front))) ++
          '(' :: otherRest := by
      simpa using whole
    simpa using head_inj isHead otherHead reached
  have isBlank := blank_behind_closing isAnySuffix isGap isName areParameters isSpace same
  obtain ⟨first, more, rfl, starts, -⟩ := other.isName
  have blank : Text.isBlank first = true := isBlank first (by simp)
  rw [Text.isNameStart_of_isBlank blank] at starts
  cases starts

/-- What stands behind the name of a type does not go on with the name, and begins with
no blank. -/
theorem head?_of_typeEnd {typeEnd : Text} (isEnd : typeEnd ∈ (argumentLists + 1) * plainSuffixes) :
    ∀ next ∈ typeEnd.head?, isTypeCharacter next = false ∧ Text.isBlank next = false := by
  obtain ⟨arguments, isArguments, _, ⟨brackets, areRanks, mark, isMark, rfl⟩, rfl⟩ :=
    Language.mem_mul.mp isEnd
  have ofNothing : ∀ next ∈ ([] : Text).head?,
      isTypeCharacter next = false ∧ Text.isBlank next = false :=
    fun next isNext => nomatch isNext
  refine head?_append ?_ (head?_append ?_ ?_)
  · rcases isArguments with ⟨_, rfl, _, _, rfl⟩ | rfl
    · rintro next ⟨⟩
      decide
    · exact ofNothing
  · obtain ⟨pieces, rfl, arePieces⟩ := Language.mem_kstar.mp areRanks
    cases pieces with
    | nil => exact ofNothing
    | cons piece others =>
        obtain ⟨_, rfl, _, _, rfl⟩ := Language.mem_mul.mp (arePieces piece List.mem_cons_self)
        rintro next ⟨⟩
        decide
  · rcases isMark with rfl | rfl
    · rintro next ⟨⟩
      decide
    · exact ofNothing

/-- A type that is no modifier is not taken for one. -/
theorem methodParts?_plain {type : Text} (isType : type ∈ returnTypes) (isGap : gap ∈ gaps)
    (isName : name ∈ names) (areParameters : parameters ∈ typeParameterLists + 1)
    (isSpace : space ∈ blanks) (noModifier : type ∉ modifiers) (rest : Text) :
    methodParts? (type ++ (gap ++ (name ++ (parameters ++ (space ++ '(' :: rest))))) =
      Option.some (type, name) := by
  obtain ⟨word, isWord, typeEnd, isEnd, rfl⟩ := Language.mem_mul.mp isType
  have isMark := head?_of_typeEnd isEnd
  obtain ⟨arguments, isArguments, suffix, isSuffix, rfl⟩ := Language.mem_mul.mp isEnd
  have first := firstReading_plain isArguments isSuffix isGap isName areParameters isSpace rest
  rw [List.append_assoc, List.append_assoc]
  refine (methodParts?_eq_some_iff isWord ?_ ?_).mpr ⟨arguments, suffix, rfl, first⟩
  · rw [← List.append_assoc]
    refine head?_append (fun next isNext => (isMark next isNext).1) fun next isNext => ?_
    obtain ⟨blank, later, rfl, isBlank, -⟩ := isGap
    obtain rfl : blank = next := Option.some.inj isNext
    exact isTypeCharacter_of_isBlank isBlank
  · -- A modifier with a mark behind it begins a type, and without one it is the type.
    intro isModifier
    rw [← List.append_assoc]
    cases marks : arguments ++ suffix with
    | nil =>
        rw [marks, List.append_nil] at noModifier
        exact absurd isModifier noModifier
    | cons mark more =>
        rw [marks] at isMark
        rintro next ⟨⟩
        exact (isMark mark rfl).2

theorem returnTypes_le_head : returnTypes ≤ allOf isHeadCharacter := by
  apply mul_le_allOf dottedNames_le_head
  apply mul_le_allOf (add_le argumentLists_le_head one_le_allOf)
  exact plainSuffixes_le_suffixes.trans suffixes_le_head

/-- A line that starts with the head of a method declares a method of the name in front
of the parenthesis, whatever follows that. -/
theorem methodName?_head {margin lead type : Text} (isMargin : margin ∈ blanks)
    (areModifiers : lead ∈ (modifierWords * gaps)∗) (isType : type ∈ returnTypes)
    (isGap : gap ∈ gaps) (isName : name ∈ names)
    (areParameters : parameters ∈ typeParameterLists + 1) (isSpace : space ∈ blanks)
    (noModifier : type ∉ modifiers) (isAllowed : IsAllowed type name) (rest : Text) :
    methodName? (margin ++ (lead ++
        (type ++ (gap ++ (name ++ (parameters ++ (space ++ '(' :: rest))))))) =
      Option.some name := by
  rw [methodName?_eq_some_iff]
  refine ⟨type, ?_, isAllowed, ?_⟩
  · rw [methodParts?_blanks isMargin]
    refine leading_modifiers areModifiers ?_
      (methodParts?_plain isType isGap isName areParameters isSpace noModifier rest)
    obtain ⟨_, ⟨first, later, rfl, starts, -⟩, _, _, rfl⟩ := Language.mem_mul.mp isType
    exact starts
  · have leadHead : (modifierWords * gaps)∗ ≤ allOf isHeadCharacter :=
      kstar_le_allOf (mul_le_allOf (modifierWords_le_names.trans names_le_head) gaps_le_head)
    have areHead : margin ++ (lead ++ (type ++ (gap ++ (name ++ (parameters ++ space))))) ∈
        allOf isHeadCharacter := by
      simp only [allOf_append]
      exact ⟨blanks_le_head isMargin, leadHead areModifiers, returnTypes_le_head isType,
        gaps_le_head isGap, names_le_head isName, parameters_le_head areParameters,
        blanks_le_head isSpace⟩
    simpa using hasEarlyArrow_head areHead rest

theorem methodName?_head_loadAsync :
    methodName?
        "  private static async Task<List<int>>[]? LoadAsync<A, B> (CancellationToken ct)".toList =
      Option.some "LoadAsync".toList := by
  have isGap : [' '] ∈ gaps := mem_startingWith.mpr (by decide)
  have areModifiers : "private static async ".toList ∈ (modifierWords * gaps)∗ := by
    have isPiece {word : Text} (isModifier : word ∈ modifiers) :
        word ++ [' '] ∈ modifierWords * gaps :=
      Language.append_mem_mul isModifier isGap
    refine Language.mem_kstar.mpr
      ⟨["private".toList ++ [' '], "static".toList ++ [' '], "async".toList ++ [' ']],
        by decide, ?_⟩
    simp only [List.forall_mem_cons, List.not_mem_nil, false_implies, implies_true, and_true]
    exact ⟨isPiece (by decide), isPiece (by decide), isPiece (by decide)⟩
  have isType : "Task<List<int>>[]?".toList ∈ returnTypes := by
    have isWord : "Task".toList ∈ dottedNames := mem_startingWith.mpr (by decide)
    have inside : "List<int>".toList ∈ allOf isArgumentCharacter := by decide
    have areArguments : "<List<int>>".toList ∈ argumentLists + 1 := .inl (enclosed_mem inside)
    have isRank : "[]".toList ∈ ranks := enclosed_mem (one_le_allOf rfl)
    have areRanks : "[]".toList ∈ ranks∗ :=
      Language.mem_kstar.mpr ⟨["[]".toList], by decide, List.forall_mem_singleton.mpr isRank⟩
    have isMark : ['?'] ∈ only '?' + 1 := .inl rfl
    exact Language.append_mem_mul isWord
      (Language.append_mem_mul areArguments (Language.append_mem_mul areRanks isMark))
  have isName : "LoadAsync".toList ∈ names := mem_startingWith.mpr (by decide)
  have areParameters : "<A, B>".toList ∈ typeParameterLists := by
    have inside : "A, B".toList ∈ allOf isFlatCharacter := by decide
    exact enclosed_mem inside
  have isAllowed : IsAllowed "Task<List<int>>[]?".toList "LoadAsync".toList :=
    ⟨by decide, by decide, by decide⟩
  have isMargin : "  ".toList ∈ blanks := by decide
  have isSpace : " ".toList ∈ blanks := by decide
  have found := methodName?_head isMargin areModifiers isType isGap isName (.inl areParameters)
    isSpace (by decide) isAllowed "CancellationToken ct)".toList
  have whole :
      "  private static async Task<List<int>>[]? LoadAsync<A, B> (CancellationToken ct)".toList =
        "  ".toList ++ ("private static async ".toList ++ ("Task<List<int>>[]?".toList ++
          ([' '] ++ ("LoadAsync".toList ++ ("<A, B>".toList ++ (" ".toList ++
            '(' :: "CancellationToken ct)".toList)))))) := by
    decide +kernel
  rw [whole]
  exact found

end Plain

end ChangeCoverage.Source.Declaration
