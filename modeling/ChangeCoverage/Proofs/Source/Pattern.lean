import ChangeCoverage.Source.Pattern
import Mathlib.Computability.Language
import Mathlib.Order.CompletePartialOrder

/-!
The languages of patterns.  A pattern gets through a text by way of one of the
beginnings in its language, provided that what follows gets through the rest; a pattern
that tries longer beginnings first takes the longest of those.
-/

namespace ChangeCoverage.Source.Pattern

open Computability

variable {Result : Type}

def allOf (accepts : Char → Bool) : Language Char :=
  {text | ∀ character ∈ text, accepts character = true}

instance (accepts : Char → Bool) (text : Text) : Decidable (text ∈ allOf accepts) :=
  List.decidableBAll (fun character => accepts character = true) text

def only (expected : Char) : Language Char :=
  {[expected]}

def anyOf (words : List Text) : Language Char :=
  {word | word ∈ words}

/-- A character of one kind with any number of characters of another kind behind it. -/
def startingWith (starts accepts : Char → Bool) : Language Char :=
  {text | ∃ first later, text = first :: later ∧ starts first = true ∧ later ∈ allOf accepts}

/-- A pattern and the language of what it takes from the front of a text. -/
structure Reads (part : Pattern Result) (language : Language Char) : Prop where
  sound : ∀ {following : Following Result} {text : Text} {result : Result},
    part following text = Option.some result →
      ∃ front ∈ language, ∃ rest, text = front ++ rest ∧ following rest = Option.some result
  complete : ∀ {following : Following Result} {front rest : Text}, front ∈ language →
    (following rest).isSome = true → (part following (front ++ rest)).isSome = true

/-- Whether no other beginning of a text is in a language and fits what follows it
without being shorter. -/
def IsLongest (language : Language Char) (following : Following Result) (text front : Text) :
    Prop :=
  ∀ other ∈ language, ∀ rest, text = other ++ rest → (following rest).isSome = true →
    other.length ≤ front.length

/-- A pattern that takes as much as it can. -/
structure ReadsLongest (part : Pattern Result) (language : Language Char) : Prop where
  longest : ∀ {following : Following Result} {text : Text} {result : Result},
    part following text = Option.some result →
      ∃ front ∈ language, ∃ rest, text = front ++ rest ∧
        following rest = Option.some result ∧ IsLongest language following text front
  complete : ∀ {following : Following Result} {front rest : Text}, front ∈ language →
    (following rest).isSome = true → (part following (front ++ rest)).isSome = true

/-- Whether at most one beginning of a text is in a language. -/
def IsPrefixFree (language : Language Char) : Prop :=
  ∀ front ∈ language, ∀ other ∈ language, ∀ rest behind : Text,
    front ++ rest = other ++ behind → front = other

section Cut

variable {accepts : Char → Bool}

theorem allOf_append {front back : Text} :
    front ++ back ∈ allOf accepts ↔ front ∈ allOf accepts ∧ back ∈ allOf accepts :=
  List.forall_mem_append

theorem allOf_mono {others : Char → Bool}
    (implies : ∀ character, accepts character = true → others character = true) :
    allOf accepts ≤ allOf others :=
  fun _ accepted character membership => implies character (accepted character membership)

theorem one_le_allOf : (1 : Language Char) ≤ allOf accepts := by
  rintro _ rfl character membership
  cases membership

theorem only_le_allOf {expected : Char} (accepted : accepts expected = true) :
    only expected ≤ allOf accepts := by
  rintro _ rfl
  simpa [allOf] using accepted

theorem startingWith_le_allOf {starts : Char → Bool}
    (implies : ∀ character, starts character = true → accepts character = true) :
    startingWith starts accepts ≤ allOf accepts := by
  rintro _ ⟨first, later, rfl, isStart, areLater⟩
  exact List.forall_mem_cons.mpr ⟨implies first isStart, areLater⟩

theorem mul_le_allOf {front back : Language Char} (frontAccepted : front ≤ allOf accepts)
    (backAccepted : back ≤ allOf accepts) : front * back ≤ allOf accepts := by
  intro text membership
  obtain ⟨first, isFirst, second, isSecond, rfl⟩ := Language.mem_mul.mp membership
  exact allOf_append.mpr ⟨frontAccepted isFirst, backAccepted isSecond⟩

theorem kstar_le_allOf {pieces : Language Char} (accepted : pieces ≤ allOf accepts) :
    pieces∗ ≤ allOf accepts := by
  intro text membership
  obtain ⟨parts, rfl, areParts⟩ := Language.mem_kstar.mp membership
  intro character isIn
  obtain ⟨part, isPart, within⟩ := List.mem_flatten.mp isIn
  exact accepted (areParts part isPart) character within

theorem mem_startingWith {starts : Char → Bool} {text : Text} :
    text ∈ startingWith starts accepts ↔
      text.head?.any starts = true ∧ text.tail ∈ allOf accepts := by
  constructor
  · rintro ⟨first, later, rfl, isStart, areLater⟩
    exact ⟨isStart, areLater⟩
  · rintro ⟨isStart, areLater⟩
    cases text with
    | nil => cases isStart
    | cons first later => exact ⟨first, later, rfl, isStart, areLater⟩

instance (starts accepts : Char → Bool) (text : Text) :
    Decidable (text ∈ startingWith starts accepts) :=
  decidable_of_iff _ mem_startingWith.symm

/-- A text falls in one way into accepted characters and a rest that does not start
with one. -/
theorem append_inj_of_allOf {front other rest behind : Text} (isFront : front ∈ allOf accepts)
    (isOther : other ∈ allOf accepts) (stops : ∀ next ∈ rest.head?, accepts next = false)
    (otherStops : ∀ next ∈ behind.head?, accepts next = false)
    (same : front ++ rest = other ++ behind) : front = other ∧ rest = behind := by
  have none {others : Text} (refused : ∀ next ∈ others.head?, accepts next = false) :
      others.takeWhile accepts = [] := by
    cases others with
    | nil => rfl
    | cons next _ => exact List.takeWhile_cons_of_neg (by simp [refused next rfl])
  have taken := congrArg (List.takeWhile accepts) same
  rw [List.takeWhile_append_of_pos isFront, List.takeWhile_append_of_pos isOther, none stops,
    none otherStops, List.append_nil, List.append_nil] at taken
  subst taken
  exact ⟨rfl, List.append_cancel_left same⟩

end Cut

variable {part later : Pattern Result} {language behind : Language Char}

theorem ReadsLongest.reads (reads : ReadsLongest part language) : Reads part language where
  sound found := by
    obtain ⟨front, isFront, rest, whole, read, -⟩ := reads.longest found
    exact ⟨front, isFront, rest, whole, read⟩
  complete := reads.complete

theorem reads_literal (expected : Char) :
    Reads (literal expected : Pattern Result) (only expected) where
  sound := by
    intro following text result found
    cases text with
    | nil => cases found
    | cons character rest =>
        rw [literal] at found
        split at found
        next isExpected => exact ⟨[character], by rw [isExpected]; rfl, rest, rfl, found⟩
        next => cases found
  complete := by
    rintro following _ rest rfl fits
    simpa [literal] using fits

theorem Reads.seq (first : Reads part language) (second : Reads later behind) :
    Reads (fun following => part (later following)) (language * behind) where
  sound := by
    intro following text result found
    obtain ⟨front, isFront, middle, rfl, foundLater⟩ := first.sound found
    obtain ⟨back, isBack, rest, rfl, read⟩ := second.sound foundLater
    exact ⟨front ++ back, Language.append_mem_mul isFront isBack, rest,
      (List.append_assoc front back rest).symm, read⟩
  complete := by
    intro following whole rest isWhole fits
    obtain ⟨front, isFront, back, isBack, rfl⟩ := Language.mem_mul.mp isWhole
    rw [List.append_assoc]
    exact first.complete isFront (second.complete isBack fits)

theorem isSome_orElse {first second : Option Result} :
    (first <|> second).isSome = true ↔ first.isSome = true ∨ second.isSome = true := by
  cases first <;> simp

theorem orElse_eq_some {first second : Option Result} {result : Result}
    (found : (first <|> second) = Option.some result) :
    first = Option.some result ∨ first = none ∧ second = Option.some result := by
  cases first with
  | none => exact .inr ⟨rfl, found⟩
  | some other => exact .inl found

theorem Reads.orElse {other : Pattern Result} {alternative : Language Char}
    (first : Reads part language) (second : Reads other alternative) :
    Reads (fun following text => part following text <|> other following text)
      (language + alternative) where
  sound := by
    intro following text result found
    rcases orElse_eq_some found with taken | ⟨-, taken⟩
    · obtain ⟨front, isFront, rest, whole, read⟩ := first.sound taken
      exact ⟨front, .inl isFront, rest, whole, read⟩
    · obtain ⟨front, isFront, rest, whole, read⟩ := second.sound taken
      exact ⟨front, .inr isFront, rest, whole, read⟩
  complete := by
    rintro following front rest (isFront | isFront) fits
    · exact isSome_orElse.mpr (.inl (first.complete isFront fits))
    · exact isSome_orElse.mpr (.inr (second.complete isFront fits))

theorem reads_nothing : Reads (fun following => following : Pattern Result) 1 where
  sound found := ⟨[], rfl, _, rfl, found⟩
  complete := by
    rintro following _ rest rfl fits
    exact fits

theorem Reads.optional (reads : Reads part language) :
    Reads (Pattern.optional part) (language + 1) :=
  reads.orElse reads_nothing

theorem reads_oneOf (words : List Text) : Reads (oneOf words : Pattern Result) (anyOf words) where
  sound := by
    intro following text result found
    obtain ⟨word, isWord, taken⟩ := List.exists_of_findSome?_eq_some found
    obtain ⟨rest, isRest, read⟩ := Option.bind_eq_some_iff.mp taken
    exact ⟨word, isWord, rest, (Text.after?_eq_some_iff.mp isRest), read⟩
  complete := by
    intro following word rest isWord fits
    rw [oneOf, List.findSome?_isSome_iff]
    refine ⟨word, isWord, ?_⟩
    rwa [Text.after?_eq_some_iff.mpr rfl]

/-- Where a part takes up something each time, its repetition takes up any number of
what it takes. -/
theorem Reads.repeated (reads : Reads part language) (filled : [] ∉ language) :
    Reads (Pattern.repeated part) language∗ where
  sound := by
    intro following text
    induction length : text.length using Nat.strongRecOn generalizing text with
    | ind count inductionHypothesis =>
        intro result found
        rw [Pattern.repeated] at found
        rcases orElse_eq_some found with again | ⟨-, stopped⟩
        · obtain ⟨front, isFront, rest, rfl, foundBehind⟩ := reads.sound again
          split at foundBehind
          next shorter =>
            obtain ⟨others, areOthers, last, rfl, read⟩ :=
              inductionHypothesis rest.length (length ▸ shorter) rfl foundBehind
            obtain ⟨pieces, rfl, arePieces⟩ := Language.mem_kstar.mp areOthers
            have allPieces : (front :: pieces).flatten ∈ language∗ :=
              Language.join_mem_kstar (List.forall_mem_cons.mpr ⟨isFront, arePieces⟩)
            exact ⟨front ++ pieces.flatten, allPieces, last,
              (List.append_assoc front pieces.flatten last).symm, read⟩
          next => cases foundBehind
        · exact ⟨[], Language.nil_mem_kstar language, text, rfl, stopped⟩
  complete := by
    intro following whole rest isWhole fits
    obtain ⟨pieces, rfl, arePieces⟩ := Language.mem_kstar.mp isWhole
    induction pieces with
    | nil =>
        rw [List.flatten_nil, List.nil_append, Pattern.repeated]
        exact isSome_orElse.mpr (.inr fits)
    | cons front others inductionHypothesis =>
        obtain ⟨isFront, areOthers⟩ := List.forall_mem_cons.mp arePieces
        have fitsBehind := inductionHypothesis areOthers (Language.join_mem_kstar areOthers)
        have nonempty : front ≠ [] := by
          rintro rfl
          exact filled isFront
        have shorter :
            (others.flatten ++ rest).length < (front ++ (others.flatten ++ rest)).length := by
          have positive := List.length_pos_of_ne_nil nonempty
          simp only [List.length_append]
          omega
        rw [List.flatten_cons, List.append_assoc, Pattern.repeated]
        apply isSome_orElse.mpr
        left
        apply reads.complete isFront
        rw [if_pos shorter]
        exact fitsBehind

theorem isSome_many {accepts : Char → Bool} {following : Following Result} {front rest : Text}
    (accepted : front ∈ allOf accepts) (fits : (following rest).isSome = true) :
    (many accepts following (front ++ rest)).isSome = true := by
  induction front with
  | nil =>
      cases rest with
      | nil => exact fits
      | cons character others =>
          rw [List.nil_append, many]
          split
          · exact isSome_orElse.mpr (.inr fits)
          · exact fits
  | cons character others inductionHypothesis =>
      obtain ⟨here, behind⟩ := List.forall_mem_cons.mp accepted
      rw [List.cons_append, many, if_pos here]
      exact isSome_orElse.mpr (.inl (inductionHypothesis behind))

theorem isLongest_nil {following : Following Result} {character : Char} {rest : Text}
    (no : ∀ others behind, character :: others ∈ language → rest = others ++ behind →
      ¬(following behind).isSome = true) :
    IsLongest language following (character :: rest) [] := by
  intro other isOther behind whole fits
  cases other with
  | nil => exact Nat.le_refl 0
  | cons first others =>
      obtain ⟨rfl, restEq⟩ := List.cons.inj whole
      exact absurd fits (no others behind isOther restEq)

theorem readsLongest_many (accepts : Char → Bool) :
    ReadsLongest (many accepts : Pattern Result) (allOf accepts) where
  longest := by
    intro following text result found
    have empty : [] ∈ allOf accepts := fun character membership => nomatch membership
    induction text with
    | nil =>
        refine ⟨[], empty, [], rfl, found, ?_⟩
        intro other _ rest whole _
        rw [(List.append_eq_nil_iff.mp whole.symm).1]
    | cons character rest inductionHypothesis =>
        rw [many] at found
        split at found
        next accepted =>
          rcases orElse_eq_some found with more | ⟨no, stopped⟩
          · obtain ⟨front, isFront, behind, rfl, read, isLongest⟩ := inductionHypothesis more
            refine ⟨character :: front, List.forall_mem_cons.mpr ⟨accepted, isFront⟩, behind,
              rfl, read, ?_⟩
            intro other isOther others whole fits
            cases other with
            | nil => exact Nat.zero_le _
            | cons first others =>
                obtain ⟨-, isBehind⟩ := List.forall_mem_cons.mp isOther
                exact Nat.succ_le_succ (isLongest others isBehind _ (List.cons.inj whole).2 fits)
          · refine ⟨[], empty, character :: rest, rfl, stopped, isLongest_nil ?_⟩
            rintro others behind isOther rfl fits
            have reached := isSome_many (List.forall_mem_cons.mp isOther).2 fits
            rw [no] at reached
            cases reached
        next refused =>
          refine ⟨[], empty, character :: rest, rfl, found, isLongest_nil ?_⟩
          intro others behind isOther _ _
          exact refused (isOther character List.mem_cons_self)
  complete := isSome_many

theorem reads_startingWith (starts accepts : Char → Bool) :
    Reads (fun following : Following Result => one starts (many accepts following))
      (startingWith starts accepts) where
  sound := by
    intro following text result found
    cases text with
    | nil => cases found
    | cons first others =>
        rw [one] at found
        split at found
        next isStart =>
          obtain ⟨later, areLater, rest, rfl, read⟩ :=
            (readsLongest_many accepts).reads.sound found
          exact ⟨first :: later, ⟨first, later, rfl, isStart, areLater⟩, rest, rfl, read⟩
        next => cases found
  complete := by
    rintro following _ rest ⟨first, later, rfl, isStart, areLater⟩ fits
    rw [List.cons_append, one, if_pos isStart]
    exact isSome_many areLater fits

/-- What a pattern takes before one that takes as much as it can leaves no choice. -/
theorem Reads.seqLongest (first : Reads part language) (free : IsPrefixFree language)
    (second : ReadsLongest later behind) :
    ReadsLongest (fun following => part (later following)) (language * behind) where
  longest := by
    intro following text result found
    obtain ⟨front, isFront, middle, rfl, foundLater⟩ := first.sound found
    obtain ⟨back, isBack, rest, rfl, read, isLongest⟩ := second.longest foundLater
    refine ⟨front ++ back, Language.append_mem_mul isFront isBack, rest,
      (List.append_assoc front back rest).symm, read, ?_⟩
    intro whole isWhole others same fits
    obtain ⟨other, isOther, otherBack, isOtherBack, rfl⟩ := Language.mem_mul.mp isWhole
    rw [List.append_assoc] at same
    obtain rfl := free front isFront other isOther _ _ same
    have shorter := isLongest otherBack isOtherBack others (List.append_cancel_left same) fits
    rw [List.length_append, List.length_append]
    exact Nat.add_le_add_left shorter _
  complete := (first.seq second.reads).complete

/-- What comes behind a pattern that takes as much as it can may add a fixed length. -/
theorem ReadsLongest.seq (first : ReadsLongest part language) (second : Reads later behind)
    {length : Nat} (fixed : ∀ back ∈ behind, back.length = length) :
    ReadsLongest (fun following => part (later following)) (language * behind) where
  longest := by
    intro following text result found
    obtain ⟨front, isFront, middle, rfl, foundLater, isLongest⟩ := first.longest found
    obtain ⟨back, isBack, rest, rfl, read⟩ := second.sound foundLater
    refine ⟨front ++ back, Language.append_mem_mul isFront isBack, rest,
      (List.append_assoc front back rest).symm, read, ?_⟩
    intro whole isWhole others same fits
    obtain ⟨other, isOther, otherBack, isOtherBack, rfl⟩ := Language.mem_mul.mp isWhole
    rw [List.append_assoc] at same
    have shorter := isLongest other isOther _ same (second.complete isOtherBack fits)
    rw [List.length_append, List.length_append, fixed back isBack, fixed otherBack isOtherBack]
    exact Nat.add_le_add_right shorter length
  complete := (first.reads.seq second).complete

theorem ReadsLongest.optional (reads : ReadsLongest part language) :
    ReadsLongest (Pattern.optional part) (language + 1) where
  longest := by
    intro following text result found
    rcases orElse_eq_some found with taken | ⟨no, skipped⟩
    · obtain ⟨front, isFront, rest, whole, read, isLongest⟩ := reads.longest taken
      refine ⟨front, .inl isFront, rest, whole, read, ?_⟩
      rintro other (isOther | isEmpty) others same fits
      · exact isLongest other isOther others same fits
      · obtain rfl : other = [] := isEmpty
        exact Nat.zero_le _
    · refine ⟨[], .inr rfl, text, rfl, skipped, ?_⟩
      rintro other (isOther | isEmpty) others rfl fits
      · have reached := reads.complete isOther fits
        rw [no] at reached
        cases reached
      · obtain rfl : other = [] := isEmpty
        exact Nat.le_refl 0
  complete := reads.reads.optional.complete

section Captured

variable {following : Text → Following Result} {text front rest : Text}

theorem take_captured (front rest : Text) :
    (front ++ rest).take ((front ++ rest).length - rest.length) = front := by
  rw [List.length_append, Nat.add_sub_cancel, List.take_left]

theorem Reads.captured_sound (reads : Reads part language) {result : Result}
    (found : captured part following text = Option.some result) :
    ∃ front ∈ language, ∃ rest, text = front ++ rest ∧
      following front rest = Option.some result := by
  obtain ⟨front, isFront, rest, rfl, read⟩ := reads.sound found
  rw [take_captured] at read
  exact ⟨front, isFront, rest, rfl, read⟩

theorem Reads.captured_complete (reads : Reads part language) (isFront : front ∈ language)
    (fits : (following front rest).isSome = true) :
    (captured part following (front ++ rest)).isSome = true := by
  apply reads.complete isFront
  rwa [take_captured]

end Captured

end ChangeCoverage.Source.Pattern
