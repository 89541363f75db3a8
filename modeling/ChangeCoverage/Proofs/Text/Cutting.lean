import ChangeCoverage.Proofs.Text.Number
import ChangeCoverage.Proofs.Text.Trim

/-!
Cutting texts: the parts around the first occurrence of a marker, and the words of a
text.  Each is described without the function that cuts, which gives a result exactly
where the description fits.
-/

namespace ChangeCoverage.Text

/-- The parts of a text in front of a marker and behind it, where the marker does
not begin any earlier in the text. -/
structure CutsFirst (marker text front back : Text) : Prop where
  whole : text = front ++ marker ++ back
  first : ∀ earlier later, text = earlier ++ marker ++ later → front.length ≤ earlier.length

/-- A word: some characters, none of them blank. -/
structure IsWord (word : Text) : Prop where
  filled : word ≠ []
  solid : ∀ character ∈ word, isBlank character = false

/-- A text of two words with blanks between them, in which there may be blanks at
either end. -/
def HoldsPair (text first second : Text) : Prop :=
  IsWord first ∧ IsWord second ∧
    ∃ leading between trailing, IsBlankText leading ∧ IsBlankText between ∧ between ≠ [] ∧
      IsBlankText trailing ∧ text = leading ++ (first ++ (between ++ (second ++ trailing)))

section Cut

variable {marker text front back : Text}

theorem CutsFirst.unique {otherFront otherBack : Text} (cuts : CutsFirst marker text front back)
    (others : CutsFirst marker text otherFront otherBack) :
    front = otherFront ∧ back = otherBack := by
  have sameLength : front.length = otherFront.length :=
    Nat.le_antisymm (cuts.first _ _ others.whole) (others.first _ _ cuts.whole)
  have same := cuts.whole.symm.trans others.whole
  rw [List.append_assoc, List.append_assoc] at same
  obtain ⟨frontSame, behind⟩ := List.append_inj same sameLength
  exact ⟨frontSame, List.append_cancel_left behind⟩

theorem ne_append_of_after?_eq_none (unmarked : after? marker text = none) (later : Text) :
    text ≠ marker ++ later := by
  intro occurs
  rw [after?_eq_some_iff.mpr occurs] at unmarked
  cases unmarked

theorem ne_append_of_splitFirst?_eq_none (unsplit : splitFirst? marker text = none)
    (earlier later : Text) : text ≠ earlier ++ marker ++ later := by
  fun_induction splitFirst? marker text generalizing earlier with
  | case1 => cases unsplit
  | case2 filled =>
      intro occurs
      have empty := (List.append_eq_nil_iff.mp (List.append_eq_nil_iff.mp occurs.symm).1).2
      rw [empty] at filled
      exact filled rfl
  | case3 => cases unsplit
  | case4 character rest elsewhere inductionHypothesis =>
      intro occurs
      have unsplitRest := Option.map_eq_none_iff.mp unsplit
      cases earlier with
      | nil => exact ne_append_of_after?_eq_none elsewhere later occurs
      | cons first others =>
          exact inductionHypothesis unsplitRest others (List.cons.inj occurs).2

theorem cutsFirst_of_splitFirst? (split : splitFirst? marker text = some (front, back)) :
    CutsFirst marker text front back := by
  refine ⟨splitFirst?_sound split, ?_⟩
  fun_induction splitFirst? marker text generalizing front with
  | case1 =>
      obtain ⟨rfl, -⟩ := Prod.mk.inj (Option.some.inj split)
      intro earlier later _
      exact Nat.zero_le _
  | case2 => cases split
  | case3 =>
      obtain ⟨rfl, -⟩ := Prod.mk.inj (Option.some.inj split)
      intro earlier later _
      exact Nat.zero_le _
  | case4 character rest elsewhere inductionHypothesis =>
      obtain ⟨parts, found, equality⟩ := Option.map_eq_some_iff.mp split
      obtain ⟨rfl, rfl⟩ := Prod.mk.inj equality
      intro earlier later occurs
      cases earlier with
      | nil => exact absurd occurs (ne_append_of_after?_eq_none elsewhere later)
      | cons first others =>
          apply Nat.succ_le_succ
          exact inductionHypothesis found others later (List.cons.inj occurs).2

theorem splitFirst?_eq_some_iff :
    splitFirst? marker text = some (front, back) ↔ CutsFirst marker text front back := by
  constructor
  · exact cutsFirst_of_splitFirst?
  · intro cuts
    cases split : splitFirst? marker text with
    | none => exact absurd cuts.whole (ne_append_of_splitFirst?_eq_none split front back)
    | some parts =>
        obtain ⟨rfl, rfl⟩ := (cutsFirst_of_splitFirst? split).unique cuts
        rfl

end Cut

section Words

variable {text word first second : Text}

theorem IsWord.head (isWord : IsWord word) :
    ∃ character rest, word = character :: rest ∧ isBlank character = false := by
  obtain ⟨character, rest, rfl⟩ := List.exists_cons_of_ne_nil isWord.filled
  exact ⟨character, rest, rfl, isWord.solid character List.mem_cons_self⟩

theorem words_blanks_append {blanks : Text} (areBlank : IsBlankText blanks) (text : Text) :
    words (blanks ++ text) = words text := by
  induction blanks with
  | nil => rfl
  | cons blank rest inductionHypothesis =>
      obtain ⟨isBlank, restBlank⟩ := areBlank.cons
      rw [List.cons_append, words, wordsFrom, if_pos isBlank]
      exact inductionHypothesis restBlank

theorem words_blanks {blanks : Text} (areBlank : IsBlankText blanks) : words blanks = [] := by
  have read := words_blanks_append areBlank []
  rwa [List.append_nil] at read

/-- A word ends at a blank, or where the text ends. -/
theorem words_word_append (isWord : IsWord word) {following : Text}
    (ends : ∀ next ∈ following.head?, isBlank next = true) :
    words (word ++ following) = word :: words following := by
  cases following with
  | nil =>
      rw [List.append_nil, words_of_solid isWord.filled isWord.solid]
      rfl
  | cons blank rest =>
      have isBlank := ends blank rfl
      rw [words_append_blank isWord.filled isWord.solid isBlank]
      have single : IsBlankText [blank] := by simpa [IsBlankText]
      have passed := words_blanks_append single rest
      rw [← passed]
      rfl

/-- A text is made of blanks alone, or it has a first word. -/
theorem words_cases (text : Text) :
    IsBlankText text ∨
      ∃ leading word following, IsBlankText leading ∧ IsWord word ∧
        (∀ next ∈ following.head?, isBlank next = true) ∧
        text = leading ++ (word ++ following) ∧ words text = word :: words following := by
  obtain ⟨leading, areBlank, whole⟩ := blanks_append_dropWhile text
  cases behind : text.dropWhile isBlank with
  | nil =>
      rw [behind, List.append_nil] at whole
      exact .inl (whole ▸ areBlank)
  | cons first rest =>
      have firstSolid : isBlank first = false := by
        have stops := List.head?_dropWhile_not isBlank text
        rwa [behind] at stops
      let solid (character : Char) : Bool := !isBlank character
      have isWord : IsWord ((first :: rest).takeWhile solid) := by
        constructor
        · simp [solid, firstSolid]
        · intro character membership
          have passed := List.all_eq_true.mp List.all_takeWhile character membership
          simpa [solid] using passed
      have ends : ∀ next ∈ ((first :: rest).dropWhile solid).head?, isBlank next = true := by
        intro next isNext
        have stops := List.head?_dropWhile_not solid (first :: rest)
        rw [Option.mem_def.mp isNext] at stops
        simpa [solid] using stops
      have parted : (first :: rest).takeWhile solid ++ (first :: rest).dropWhile solid =
          first :: rest := List.takeWhile_append_dropWhile
      have readBehind := words_blanks_append areBlank (text.dropWhile isBlank)
      rw [whole] at readBehind
      refine .inr ⟨leading, _, _, areBlank, isWord, ends, ?_, ?_⟩
      · rw [parted, ← behind, whole]
      · rw [readBehind, behind, ← words_word_append isWord ends, parted]

theorem words_eq_pair_iff : words text = [first, second] ↔ HoldsPair text first second := by
  constructor
  · intro read
    rcases words_cases text with areBlank |
      ⟨leading, word, following, leadingBlank, firstWord, firstEnds, rfl, firstRead⟩
    · rw [words_blanks areBlank] at read
      cases read
    obtain ⟨rfl, readBehind⟩ := List.cons.inj (firstRead.symm.trans read)
    rcases words_cases following with areBlank |
      ⟨between, word, trailing, betweenBlank, secondWord, secondEnds, rfl, secondRead⟩
    · rw [words_blanks areBlank] at readBehind
      cases readBehind
    obtain ⟨rfl, readNone⟩ := List.cons.inj (secondRead.symm.trans readBehind)
    have separated : between ≠ [] := by
      rintro rfl
      obtain ⟨character, rest, rfl, solid⟩ := secondWord.head
      have blank := firstEnds character rfl
      rw [solid] at blank
      cases blank
    have trailingBlank : IsBlankText trailing := by
      rcases words_cases trailing with areBlank | ⟨_, _, _, _, _, _, _, thirdRead⟩
      · exact areBlank
      · rw [readNone] at thirdRead
        cases thirdRead
    exact ⟨firstWord, secondWord, leading, between, trailing, leadingBlank, betweenBlank,
      separated, trailingBlank, rfl⟩
  · rintro ⟨firstWord, secondWord, leading, between, trailing, leadingBlank, betweenBlank,
      separated, trailingBlank, rfl⟩
    have secondEnds : ∀ next ∈ trailing.head?, isBlank next = true := fun next isNext =>
      trailingBlank next (List.mem_of_mem_head? isNext)
    have firstEnds : ∀ next ∈ (between ++ (second ++ trailing)).head?, isBlank next = true := by
      obtain ⟨blank, others, rfl⟩ := List.exists_cons_of_ne_nil separated
      intro next isNext
      obtain rfl := Option.some.inj isNext
      exact betweenBlank blank List.mem_cons_self
    rw [words_blanks_append leadingBlank, words_word_append firstWord firstEnds,
      words_blanks_append betweenBlank, words_word_append secondWord secondEnds,
      words_blanks trailingBlank]

end Words

end ChangeCoverage.Text
