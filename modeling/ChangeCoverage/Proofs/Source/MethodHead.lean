import ChangeCoverage.Proofs.Source.Margin
import ChangeCoverage.Proofs.Source.Pattern

/-!
What looks like the head of a method: a return type, a name and a parenthesis.  A text
that begins with a word is read as one wherever it has that form, and where it has it in
several ways, the type arguments of the return type reach as far as they can.
-/

namespace ChangeCoverage.Source.Declaration

open Pattern Computability

section Languages

def blanks : Language Char := allOf Text.isBlank

def gaps : Language Char := startingWith Text.isBlank Text.isBlank

def names : Language Char := startingWith Text.isNameStart Text.isWordCharacter

def isTypeCharacter (character : Char) : Bool :=
  Text.isWordCharacter character || character = '.'

def dottedNames : Language Char := startingWith Text.isNameStart isTypeCharacter

def isArgumentCharacter (character : Char) : Bool :=
  ! ['(', ')', '=', ';'].contains character

/-- What stands between `<` and `>` behind a type or a method. -/
def argumentLists : Language Char :=
  only '<' * (allOf isArgumentCharacter * only '>')

def isRankCharacter (character : Char) : Bool :=
  character = ',' || Text.isBlank character

def ranks : Language Char :=
  only '[' * (allOf isRankCharacter * only ']')

/-- What may stand behind the name of a type and its arguments. -/
def suffixes : Language Char := (blanks * ranks)∗ * (only '?' + 1)

/-- What leads from the name of a method to its parameters. -/
def openings : Language Char :=
  blanks * ((argumentLists + 1) * (blanks * only '('))

end Languages

/-- The parts of a text that goes on behind a word as the head of a method. -/
structure Reading (text arguments suffix name : Text) : Prop where
  isArguments : arguments ∈ blanks * argumentLists + 1
  isSuffix : suffix ∈ suffixes
  isName : name ∈ names
  whole : ∃ gap ∈ gaps, ∃ opening ∈ openings, ∃ rest,
    text = arguments ++ (suffix ++ (gap ++ (name ++ (opening ++ rest))))

/-- The reading of a text in which the type arguments reach as far as they can. -/
structure FirstReading (text arguments suffix name : Text) : Prop
    extends Reading text arguments suffix name where
  longest : ∀ others otherSuffix otherName, Reading text others otherSuffix otherName →
    others.length ≤ arguments.length

section Characters

variable {character : Char}

theorem isTypeCharacter_of_isWordCharacter (isWord : Text.isWordCharacter character = true) :
    isTypeCharacter character = true := by
  rw [isTypeCharacter, isWord, Bool.true_or]

theorem isTypeCharacter_of_isNameStart (starts : Text.isNameStart character = true) :
    isTypeCharacter character = true :=
  isTypeCharacter_of_isWordCharacter (Text.isWordCharacter_of_isNameStart starts)

theorem isBlank_of_isTypeCharacter (isType : isTypeCharacter character = true) :
    Text.isBlank character = false := by
  rw [Bool.eq_false_iff]
  intro blank
  have noWord := Text.isWordCharacter_of_isBlank blank
  have isDot : character = '.' := by simpa [isTypeCharacter, noWord] using isType
  exact Text.ne_of_isBlank blank (by decide) isDot

theorem isTypeCharacter_of_isBlank (blank : Text.isBlank character = true) :
    isTypeCharacter character = false := by
  rw [Bool.eq_false_iff]
  intro isType
  rw [isBlank_of_isTypeCharacter isType] at blank
  cases blank

theorem gaps_le_blanks : gaps ≤ blanks :=
  startingWith_le_allOf fun _ blank => blank

theorem names_le_words : names ≤ allOf Text.isWordCharacter :=
  startingWith_le_allOf fun _ => Text.isWordCharacter_of_isNameStart

end Characters

section Patterns

variable {Result : Type}

theorem reads_typeArguments : Reads (typeArguments : Pattern Result) argumentLists :=
  (reads_literal '<').seq
    ((readsLongest_many isArgumentCharacter).reads.seq (reads_literal '>'))

/-- What ends a return type: its type arguments, its array brackets and its mark. -/
def typeTail : Pattern Result := fun following =>
  optional (fun next => many Text.isBlank (typeArguments next))
    (repeated arrayRank (optional (literal '?') following))

theorem isPrefixFree_blanks_only {mark : Char} (solid : Text.isBlank mark = false) :
    IsPrefixFree (blanks * only mark) := by
  intro front isFront other isOther rest behind same
  obtain ⟨frontBlanks, areBlank, _, rfl, rfl⟩ := Language.mem_mul.mp isFront
  obtain ⟨otherBlanks, areOtherBlank, _, rfl, rfl⟩ := Language.mem_mul.mp isOther
  rw [List.append_assoc, List.append_assoc] at same
  have stops (later : Text) : ∀ next ∈ ([mark] ++ later).head?, Text.isBlank next = false := by
    simpa using solid
  rw [(append_inj_of_allOf areBlank areOtherBlank (stops rest) (stops behind) same).1]

/-- Type arguments, with blanks before them, reach as far as they can. -/
theorem readsLongest_arguments :
    ReadsLongest (optional fun next : Following Result => many Text.isBlank (typeArguments next))
      (blanks * argumentLists + 1) := by
  have spaced : ReadsLongest
      (fun next : Following Result => many Text.isBlank (typeArguments next))
      (blanks * only '<' * (allOf isArgumentCharacter * only '>')) :=
    ((readsLongest_many Text.isBlank).reads.seq (reads_literal '<')).seqLongest
      (isPrefixFree_blanks_only (by decide))
      ((readsLongest_many isArgumentCharacter).seq (reads_literal '>')
        fun _ isClosing => congrArg List.length isClosing)
  rw [mul_assoc] at spaced
  exact spaced.optional

theorem not_nil_mem_spacedRanks : [] ∉ blanks * ranks := by
  intro empty
  obtain ⟨_, _, _, ⟨_, rfl, _, _, rfl⟩, whole⟩ := Language.mem_mul.mp empty
  simp at whole

theorem reads_suffix :
    Reads (fun following : Following Result =>
      repeated arrayRank (optional (literal '?') following)) suffixes := by
  have reads_arrayRank : Reads (arrayRank : Pattern Result) (blanks * ranks) :=
    (readsLongest_many Text.isBlank).reads.seq ((reads_literal '[').seq
      ((readsLongest_many isRankCharacter).reads.seq (reads_literal ']')))
  exact (reads_arrayRank.repeated not_nil_mem_spacedRanks).seq (reads_literal '?').optional

/-- The name of a method and the parenthesis behind it. -/
def nameHead (result : Text) : Following (Text × Text) :=
  some Text.isBlank (captured identifier fun name =>
    many Text.isBlank (optional typeArguments
      (many Text.isBlank (literal '(' fun _ => Option.some (result, name)))))

theorem reads_opening :
    Reads (fun following : Following Result => many Text.isBlank (optional typeArguments
      (many Text.isBlank (literal '(' following)))) openings :=
  (readsLongest_many Text.isBlank).reads.seq (reads_typeArguments.optional.seq
    ((readsLongest_many Text.isBlank).reads.seq (reads_literal '(')))

theorem nameHead_sound {result text : Text} {parts : Text × Text}
    (found : nameHead result text = Option.some parts) :
    ∃ gap ∈ gaps, ∃ name ∈ names, ∃ opening ∈ openings, ∃ rest,
      text = gap ++ (name ++ (opening ++ rest)) ∧ parts = (result, name) := by
  obtain ⟨gap, isGap, afterGap, rfl, named⟩ :=
    (reads_startingWith Text.isBlank Text.isBlank).sound found
  obtain ⟨name, isName, afterName, rfl, opened⟩ :=
    (reads_startingWith Text.isNameStart Text.isWordCharacter).captured_sound named
  obtain ⟨opening, isOpening, rest, rfl, returned⟩ := reads_opening.sound opened
  exact ⟨gap, isGap, name, isName, opening, isOpening, rest, rfl, (Option.some.inj returned).symm⟩

theorem nameHead_complete {gap name opening : Text} (isGap : gap ∈ gaps) (isName : name ∈ names)
    (isOpening : opening ∈ openings) (result rest : Text) :
    (nameHead result (gap ++ (name ++ (opening ++ rest)))).isSome = true := by
  apply (reads_startingWith Text.isBlank Text.isBlank).complete isGap
  apply (reads_startingWith Text.isNameStart Text.isWordCharacter).captured_complete isName
  exact reads_opening.complete isOpening rfl

end Patterns

section Word

variable {Result : Type} {word tail : Text} {following : Following Result}

/-- Of some words, only the one that a text starts with can be read there. -/
theorem oneOf_word {accepts : Char → Bool} {choices : List Text}
    (areWords : ∀ choice ∈ choices, choice ∈ allOf accepts) (isWord : word ∈ allOf accepts)
    (ends : ∀ next ∈ tail.head?, accepts next = false)
    (rejects : ∀ character rest, accepts character = true →
      following (character :: rest) = none) :
    oneOf choices following (word ++ tail) = if word ∈ choices then following tail else none := by
  have read {choice : Text} (isChoice : choice ∈ allOf accepts) :
      (Text.after? choice (word ++ tail)).bind following =
        if word = choice then following tail else none := by
    by_cases same : word = choice
    · have found : Text.after? choice (word ++ tail) = Option.some tail :=
        Text.after?_eq_some_iff.mpr (by rw [same])
      rw [if_pos same, found, Option.bind_some]
    · rw [if_neg same, Option.bind_eq_none_iff]
      intro rest found
      rcases List.append_eq_append_iff.mp (Text.after?_eq_some_iff.mp found) with
        ⟨more, rfl, rfl⟩ | ⟨more, rfl, rfl⟩
      · -- The choice is longer than the word, and the word would go on.
        cases more with
        | nil => exact absurd (List.append_nil word).symm same
        | cons next others =>
            have goesOn := isChoice next (by simp)
            rw [ends next rfl] at goesOn
            cases goesOn
      · cases more with
        | nil => exact absurd (List.append_nil choice) same
        | cons next others => exact rejects next _ (isWord next (by simp))
  rw [oneOf]
  induction choices with
  | nil => rfl
  | cons choice others inductionHypothesis =>
      obtain ⟨isChoice, areOthers⟩ := List.forall_mem_cons.mp areWords
      rw [List.findSome?_cons, read isChoice, inductionHypothesis areOthers]
      by_cases same : word = choice
      · simp only [same, if_true, List.mem_cons, true_or]
        cases following tail <;> simp
      · simp [same]

/-- A modifier and the blanks behind it. -/
def modifier : Pattern Result := fun next =>
  oneOf modifiers (some Text.isBlank next)

theorem some_of_solid {character : Char} (solid : Text.isBlank character = false)
    (next : Following Result) (rest : Text) :
    some Text.isBlank next (character :: rest) = none := by
  rw [Pattern.some, one, solid, if_neg Bool.false_ne_true]

theorem allOf_of_dottedNames (isWord : word ∈ dottedNames) : word ∈ allOf isTypeCharacter :=
  startingWith_le_allOf (fun _ => isTypeCharacter_of_isNameStart) isWord

theorem modifier_word (isWord : word ∈ dottedNames)
    (ends : ∀ next ∈ tail.head?, isTypeCharacter next = false) (next : Following Result) :
    modifier next (word ++ tail) =
      if word ∈ modifiers then some Text.isBlank next tail else none := by
  have areWords : ∀ choice ∈ modifiers, choice ∈ allOf isTypeCharacter := by decide +kernel
  apply oneOf_word areWords (allOf_of_dottedNames isWord) ends
  intro character rest isType
  exact some_of_solid (isBlank_of_isTypeCharacter isType) next rest

theorem leading_of_isNameStart {first : Char} (starts : Text.isNameStart first = true)
    (following : Following Result) (rest : Text) :
    leading following (first :: rest) = repeated modifier following (first :: rest) := by
  have solid := isBlank_of_isTypeCharacter (isTypeCharacter_of_isNameStart starts)
  have noBracket : first ≠ '[' := by
    rintro rfl
    exact absurd starts (by decide)
  rw [leading, many, solid, if_neg Bool.false_ne_true, attributes, repeated_eq]
  · rfl
  · exact fun next => if_neg noBracket

/-- Nothing stands before a declaration that begins with its first word. -/
theorem leading_word (isWord : word ∈ dottedNames)
    (ends : ∀ next ∈ tail.head?, isTypeCharacter next = false)
    (noModifier : word ∈ modifiers → ∀ next ∈ tail.head?, Text.isBlank next = false)
    (following : Following Result) :
    leading following (word ++ tail) = following (word ++ tail) := by
  have none : ∀ next : Following Result, modifier next (word ++ tail) = none := by
    intro next
    rw [modifier_word isWord ends]
    split
    next isModifier =>
      cases tail with
      | nil => rfl
      | cons character rest => exact some_of_solid (noModifier isModifier character rfl) next rest
    next => rfl
  have read := repeated_eq none following
  obtain ⟨first, later, rfl, starts, -⟩ := isWord
  rw [List.cons_append] at read ⊢
  rw [leading_of_isNameStart starts, read]

theorem typeTail_of_isTypeCharacter {character : Char}
    (isType : isTypeCharacter character = true) {rest : Text}
    (rejects : following (character :: rest) = none) :
    typeTail following (character :: rest) = none := by
  have solid := isBlank_of_isTypeCharacter isType
  have isOther {mark : Char} (noType : isTypeCharacter mark = false) : character ≠ mark := by
    rintro rfl
    rw [isType] at noType
    cases noType
  have noArguments (next : Following Result) :
      many Text.isBlank (typeArguments next) (character :: rest) = none := by
    rw [many, solid, if_neg Bool.false_ne_true, typeArguments, literal,
      if_neg (isOther (by decide))]
  have noRank (next : Following Result) : arrayRank next (character :: rest) = none := by
    rw [arrayRank, many, solid, if_neg Bool.false_ne_true, literal, if_neg (isOther (by decide))]
  have noMark : literal '?' following (character :: rest) = none :=
    if_neg (isOther (by decide))
  rw [typeTail, Pattern.optional, noArguments, repeated_eq noRank, Pattern.optional, noMark,
    rejects]
  rfl

theorem returnType_word (isWord : word ∈ dottedNames)
    (ends : ∀ next ∈ tail.head?, isTypeCharacter next = false)
    (rejects : ∀ character rest, isTypeCharacter character = true →
      following (character :: rest) = none) :
    returnType following (word ++ tail) = typeTail following tail := by
  obtain ⟨first, later, rfl, starts, areLater⟩ := isWord
  have stops : tail.dropWhile isTypeCharacter = tail := by
    cases tail with
    | nil => rfl
    | cons next rest => exact List.dropWhile_cons_of_neg (by simp [ends next rfl])
  have started : returnType following (first :: (later ++ tail)) =
      many isTypeCharacter (typeTail following) (later ++ tail) := if_pos starts
  rw [List.cons_append, started, many_eq_of_rejects fun character rest isType =>
    typeTail_of_isTypeCharacter isType (rejects character rest isType),
    List.dropWhile_append_of_pos areLater, stops]

theorem methodParts?_word (isWord : word ∈ dottedNames)
    (ends : ∀ next ∈ tail.head?, isTypeCharacter next = false)
    (noModifier : word ∈ modifiers → ∀ next ∈ tail.head?, Text.isBlank next = false) :
    methodParts? (word ++ tail) =
      typeTail (fun rest =>
        nameHead ((word ++ tail).take ((word ++ tail).length - rest.length)) rest) tail := by
  refine (leading_word isWord ends noModifier (captured returnType nameHead)).trans ?_
  apply returnType_word isWord ends
  intro character rest isType
  exact some_of_solid (isBlank_of_isTypeCharacter isType) _ rest

end Word

section Reading

variable {word tail text arguments suffix name : Text}

theorem Reading.isSome_typeTail (reading : Reading text arguments suffix name)
    (result : Text → Text) :
    (typeTail (fun rest => nameHead (result rest) rest) text).isSome = true := by
  obtain ⟨gap, isGap, opening, isOpening, rest, rfl⟩ := reading.whole
  apply readsLongest_arguments.complete reading.isArguments
  apply reads_suffix.complete reading.isSuffix
  exact nameHead_complete isGap reading.isName isOpening _ rest

theorem firstReading_of_typeTail {result : Text → Text} {parts : Text × Text}
    (found : typeTail (fun rest => nameHead (result rest) rest) text = Option.some parts) :
    ∃ arguments suffix name rest, FirstReading text arguments suffix name ∧
      text = arguments ++ (suffix ++ rest) ∧ parts = (result rest, name) := by
  obtain ⟨arguments, isArguments, behind, rfl, suffixed, isLongest⟩ :=
    readsLongest_arguments.longest found
  obtain ⟨suffix, isSuffix, rest, rfl, named⟩ := reads_suffix.sound suffixed
  obtain ⟨gap, isGap, name, isName, opening, isOpening, last, restEq, partsEq⟩ :=
    nameHead_sound named
  refine ⟨arguments, suffix, name, rest, ⟨⟨isArguments, isSuffix, isName, gap, isGap, opening,
    isOpening, last, by rw [restEq]⟩, ?_⟩, rfl, partsEq⟩
  intro others otherSuffix otherName other
  obtain ⟨otherGap, isOtherGap, otherOpening, isOtherOpening, otherLast, whole⟩ := other.whole
  apply isLongest others other.isArguments _ whole
  apply reads_suffix.complete other.isSuffix
  exact nameHead_complete isOtherGap other.isName isOtherOpening _ otherLast

theorem suffixes_le_allOf {accepts : Char → Bool}
    (blankAccepted : ∀ character, Text.isBlank character = true → accepts character = true)
    (marksAccepted : ['[', ',', ']', '?'] ∈ allOf accepts) :
    suffixes ≤ allOf accepts := by
  have rankAccepted : ∀ character, isRankCharacter character = true →
      accepts character = true := by
    intro character isRank
    rw [isRankCharacter, Bool.or_eq_true, decide_eq_true_eq] at isRank
    rcases isRank with rfl | blank
    · exact marksAccepted ',' (by decide)
    · exact blankAccepted character blank
  apply mul_le_allOf
  · apply kstar_le_allOf
    apply mul_le_allOf (allOf_mono blankAccepted)
    apply mul_le_allOf (only_le_allOf (marksAccepted '[' (by decide)))
    exact mul_le_allOf (allOf_mono rankAccepted) (only_le_allOf (marksAccepted ']' (by decide)))
  · exact add_le (only_le_allOf (marksAccepted '?' (by decide))) one_le_allOf

theorem getLast?_of_spacedRanks {brackets : Text} (areRanks : brackets ∈ (blanks * ranks)∗) :
    ∀ last ∈ brackets.getLast?, last = ']' := by
  obtain ⟨pieces, rfl, arePieces⟩ := Language.mem_kstar.mp areRanks
  clear areRanks
  induction pieces with
  | nil => exact fun last isLast => nomatch isLast
  | cons piece others inductionHypothesis =>
      obtain ⟨isPiece, areOthers⟩ := List.forall_mem_cons.mp arePieces
      have closes : piece.getLast? = Option.some ']' := by
        obtain ⟨_, _, _, ⟨_, rfl, _, ⟨_, _, _, rfl, rfl⟩, rfl⟩, rfl⟩ := Language.mem_mul.mp isPiece
        simp [List.getLast?_cons]
      intro last isLast
      rw [List.flatten_cons, List.getLast?_append, closes] at isLast
      rcases Option.or_eq_some_iff.mp isLast with behind | ⟨-, here⟩
      · exact inductionHypothesis areOthers last behind
      · exact (Option.some.inj here).symm

theorem solid_getLast?_of_suffixes (isSuffix : suffix ∈ suffixes) :
    ∀ last ∈ suffix.getLast?, Text.isBlank last = false := by
  obtain ⟨brackets, areRanks, mark, isMark, rfl⟩ := Language.mem_mul.mp isSuffix
  intro last isLast
  rcases isMark with rfl | rfl
  · obtain rfl : '?' = last := by simpa using isLast
    decide
  · rw [List.append_nil] at isLast
    rw [getLast?_of_spacedRanks areRanks last isLast]
    decide

theorem head?_append {holds : Char → Prop} {front back : Text}
    (here : ∀ next ∈ front.head?, holds next) (behind : ∀ next ∈ back.head?, holds next) :
    ∀ next ∈ (front ++ back).head?, holds next := by
  cases front with
  | nil => exact behind
  | cons first later => exact here

theorem head?_of_openings {opening : Text} (isOpening : opening ∈ openings) (rest : Text) :
    ∀ next ∈ (opening ++ rest).head?, Text.isWordCharacter next = false := by
  obtain ⟨front, frontBlank, _, ⟨list, isList, _, ⟨back, backBlank, _, rfl, rfl⟩, rfl⟩, rfl⟩ :=
    Language.mem_mul.mp isOpening
  have ofBlanks {text : Text} (areBlank : text ∈ blanks) :
      ∀ next ∈ text.head?, Text.isWordCharacter next = false := fun next isNext =>
    Text.isWordCharacter_of_isBlank (areBlank next (List.mem_of_mem_head? isNext))
  have ofList : ∀ next ∈ list.head?, Text.isWordCharacter next = false := by
    rcases isList with ⟨_, rfl, _, _, rfl⟩ | rfl
    · rintro next ⟨⟩
      decide
    · exact fun next isNext => nomatch isNext
  have ofMark : ∀ next ∈ (['('] ++ rest).head?, Text.isWordCharacter next = false := by
    rintro next ⟨⟩
    decide
  rw [List.append_assoc, List.append_assoc, List.append_assoc]
  exact head?_append (ofBlanks frontBlank)
    (head?_append ofList (head?_append (ofBlanks backBlank) ofMark))

/-- Behind the type arguments there is no choice. -/
theorem eq_of_suffix_gap_name {gap opening rest others otherName otherGap otherOpening : Text}
    {otherRest : Text} (isSuffix : suffix ∈ suffixes) (isGap : gap ∈ gaps) (isName : name ∈ names)
    (isOpening : opening ∈ openings) (isOther : others ∈ suffixes) (isOtherGap : otherGap ∈ gaps)
    (isOtherName : otherName ∈ names) (isOtherOpening : otherOpening ∈ openings)
    (same : suffix ++ (gap ++ (name ++ (opening ++ rest))) =
      others ++ (otherGap ++ (otherName ++ (otherOpening ++ otherRest)))) :
    suffix = others ∧ name = otherName := by
  let early (character : Char) : Bool := !Text.isNameStart character
  have blankEarly : ∀ character, Text.isBlank character = true → early character = true :=
    fun _ blank => by simp [early, Text.isNameStart_of_isBlank blank]
  have suffixEarly : suffixes ≤ allOf early := suffixes_le_allOf blankEarly (by decide)
  have starts {text : Text} (isName : text ∈ names) (behind : Text) :
      ∀ next ∈ (text ++ behind).head?, early next = false := by
    obtain ⟨first, later, rfl, isStart, -⟩ := isName
    rintro next ⟨⟩
    simp [early, isStart]
  have cut {text gap : Text} (isSuffix : text ∈ suffixes) (isGap : gap ∈ gaps) :
      text ++ gap ∈ allOf early :=
    allOf_append.mpr ⟨suffixEarly isSuffix, allOf_mono blankEarly (gaps_le_blanks isGap)⟩
  rw [← List.append_assoc, ← List.append_assoc others] at same
  obtain ⟨before, behind⟩ := append_inj_of_allOf (cut isSuffix isGap) (cut isOther isOtherGap)
    (starts isName _) (starts isOtherName _) same
  have trimmed {text gap : Text} (isSuffix : text ∈ suffixes) (isGap : gap ∈ gaps) :
      Text.trimEnd (text ++ gap) = text := by
    rw [Text.trimEnd_append (gaps_le_blanks isGap),
      Text.trimEnd_eq_self (solid_getLast?_of_suffixes isSuffix)]
  constructor
  · rw [← trimmed isSuffix isGap, before, trimmed isOther isOtherGap]
  · exact (append_inj_of_allOf (names_le_words isName) (names_le_words isOtherName)
      (head?_of_openings isOpening rest) (head?_of_openings isOtherOpening otherRest) behind).1

theorem FirstReading.unique {others otherSuffix otherName : Text}
    (first : FirstReading text arguments suffix name)
    (other : FirstReading text others otherSuffix otherName) :
    arguments = others ∧ suffix = otherSuffix ∧ name = otherName := by
  have sameLength : arguments.length = others.length :=
    Nat.le_antisymm (other.longest _ _ _ first.toReading) (first.longest _ _ _ other.toReading)
  obtain ⟨gap, isGap, opening, isOpening, rest, whole⟩ := first.whole
  obtain ⟨otherGap, isOtherGap, otherOpening, isOtherOpening, otherRest, otherWhole⟩ :=
    other.whole
  obtain ⟨rfl, same⟩ := List.append_inj (whole.symm.trans otherWhole) sameLength
  exact ⟨rfl, eq_of_suffix_gap_name first.isSuffix isGap first.isName isOpening other.isSuffix
    isOtherGap other.isName isOtherOpening same⟩

/-- A text that begins with a word is taken for the head of a method exactly if it goes
on as one, by way of its first reading. -/
theorem methodParts?_eq_some_iff (isWord : word ∈ dottedNames)
    (ends : ∀ next ∈ tail.head?, isTypeCharacter next = false)
    (noModifier : word ∈ modifiers → ∀ next ∈ tail.head?, Text.isBlank next = false)
    {result name : Text} :
    methodParts? (word ++ tail) = Option.some (result, name) ↔
      ∃ arguments suffix, result = word ++ (arguments ++ suffix) ∧
        FirstReading tail arguments suffix name := by
  have sound {parts : Text × Text}
      (found : methodParts? (word ++ tail) = Option.some parts) :
      ∃ arguments suffix name, parts = (word ++ (arguments ++ suffix), name) ∧
        FirstReading tail arguments suffix name := by
    rw [methodParts?_word isWord ends noModifier] at found
    obtain ⟨arguments, suffix, name, rest, first, rfl, rfl⟩ := firstReading_of_typeTail found
    have regrouped : word ++ (arguments ++ (suffix ++ rest)) =
        word ++ (arguments ++ suffix) ++ rest := by
      simp only [List.append_assoc]
    refine ⟨arguments, suffix, name, ?_, first⟩
    rw [regrouped, take_captured]
  constructor
  · intro found
    obtain ⟨arguments, suffix, other, same, first⟩ := sound found
    obtain ⟨rfl, rfl⟩ := Prod.mk.inj same
    exact ⟨arguments, suffix, rfl, first⟩
  · rintro ⟨arguments, suffix, rfl, first⟩
    have isSome : (methodParts? (word ++ tail)).isSome = true := by
      rw [methodParts?_word isWord ends noModifier]
      exact first.toReading.isSome_typeTail _
    obtain ⟨parts, found⟩ := Option.isSome_iff_exists.mp isSome
    obtain ⟨others, otherSuffix, otherName, rfl, other⟩ := sound found
    obtain ⟨rfl, rfl, rfl⟩ := first.unique other
    exact found

end Reading

end ChangeCoverage.Source.Declaration
