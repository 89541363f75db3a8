import ChangeCoverage.Proofs.Branch.Header
import ChangeCoverage.Proofs.Branch.Marks
import ChangeCoverage.Proofs.Text.Trim

/-!
Where the headers of a line are.  A header starts at each keyword that is a word
of its own and goes on as its kind asks for, except at an `if` that belongs to
the header of the `else` before it.
-/

namespace ChangeCoverage.Branch

open Text (IsBlankText)

/-- Whether no word goes on at the end of a text. -/
def EndsWords (front : Text) : Prop :=
  ∀ last ∈ front.getLast?, Text.isWordCharacter last = false

/-- A keyword that is followed by no further character of a word. -/
def StartsWithWord (keyword text : Text) : Prop :=
  ∃ behind, text = keyword ++ behind ∧ ∀ next ∈ behind.head?, Text.isWordCharacter next = false

/-- A keyword and a mark with nothing but blanks between them. -/
def IsMarked (keyword : Text) (mark : Char) (lead : Text) : Prop :=
  ∃ blanks, IsBlankText blanks ∧ lead = keyword ++ (blanks ++ [mark])

/-- An `else`, blanks, and an `if` with its parenthesis. -/
def IsChain (lead : Text) : Prop :=
  ∃ blanks condition, IsBlankText blanks ∧ blanks ≠ [] ∧ IsMarked "if".toList '(' condition ∧
    lead = "else".toList ++ (blanks ++ condition)

def StartsWith (shape : Text → Prop) (text : Text) : Prop :=
  ∃ lead, shape lead ∧ lead <+: text

/-- Whether a text starts with a header of a kind. -/
def Kind.Opens : Kind → Text → Prop
  | ifHeader, text => StartsWith (IsMarked "if".toList '(') text
  | elseIfHeader, text => StartsWithWord "else".toList text ∧ StartsWith IsChain text
  | elseHeader, text => StartsWithWord "else".toList text ∧ ¬StartsWith IsChain text
  | switchHeader, text => StartsWith (IsMarked "switch".toList '(') text
  | caseLabel, text => StartsWithWord "case".toList text
  | defaultLabel, text => StartsWith (IsMarked "default".toList ':') text

/-- Whether a text ends in an `else` of its own and blanks behind it. -/
def EndsInElse (front : Text) : Prop :=
  ∃ before blanks, EndsWords before ∧ IsBlankText blanks ∧ blanks ≠ [] ∧
    front = before ++ ("else".toList ++ blanks)

section Reading

variable {keyword text behind : Text} {mark : Char}

theorem afterBlanks?_eq_some_iff (solid : Text.isBlank mark = false) :
    afterBlanks? mark text = some behind ↔
      ∃ blanks, IsBlankText blanks ∧ text = blanks ++ mark :: behind := by
  rw [afterBlanks?, Text.after?_eq_some_iff]
  constructor
  · intro found
    obtain ⟨blanks, areBlank, whole⟩ := Text.blanks_append_dropWhile text
    rw [found] at whole
    exact ⟨blanks, areBlank, whole.symm⟩
  · rintro ⟨blanks, areBlank, rfl⟩
    rw [List.dropWhile_append_of_pos areBlank, List.dropWhile_cons_of_neg (by simp [solid])]
    rfl

theorem marked_eq_some_iff (solid : Text.isBlank mark = false) :
    (Text.after? keyword text).bind (afterBlanks? mark) = some behind ↔
      ∃ lead, IsMarked keyword mark lead ∧ text = lead ++ behind := by
  rw [Option.bind_eq_some_iff]
  constructor
  · rintro ⟨rest, found, marked⟩
    obtain ⟨blanks, areBlank, rfl⟩ := (afterBlanks?_eq_some_iff solid).mp marked
    refine ⟨keyword ++ (blanks ++ [mark]), ⟨blanks, areBlank, rfl⟩, ?_⟩
    rw [Text.after?_eq_some_iff.mp found]
    simp
  · rintro ⟨lead, ⟨blanks, areBlank, rfl⟩, rfl⟩
    refine ⟨blanks ++ mark :: behind, ?_, ?_⟩
    · rw [Text.after?_eq_some_iff]
      simp
    · exact (afterBlanks?_eq_some_iff solid).mpr ⟨blanks, areBlank, rfl⟩

theorem endsWord_iff :
    endsWord text = true ↔ ∀ next ∈ text.head?, Text.isWordCharacter next = false := by
  cases text <;> simp [endsWord]

theorem afterWord?_eq_some_iff :
    afterWord? keyword text = some behind ↔
      text = keyword ++ behind ∧ ∀ next ∈ behind.head?, Text.isWordCharacter next = false := by
  rw [afterWord?, Option.filter_eq_some_iff, Text.after?_eq_some_iff, endsWord_iff]

theorem afterElseIf?_eq_some_iff :
    afterElseIf? text = some behind ↔ ∃ lead, IsChain lead ∧ text = lead ++ behind := by
  unfold afterElseIf?
  simp only [Option.bind_eq_bind, Option.bind_eq_some_iff]
  constructor
  · rintro ⟨rest, found, chained⟩
    split at chained
    next spaced =>
      obtain ⟨condition, isMarked, restEq⟩ := (marked_eq_some_iff (by decide)).mp chained
      obtain ⟨blanks, areBlank, whole⟩ := Text.blanks_append_dropWhile rest
      rw [restEq] at whole
      refine ⟨_, ⟨blanks, condition, areBlank, ?_, isMarked, rfl⟩, ?_⟩
      · rintro rfl
        obtain ⟨between, -, rfl⟩ := isMarked
        rw [← whole] at spaced
        have letter : Text.isBlank 'i' = true := spaced
        exact absurd letter (by decide)
      · rw [Text.after?_eq_some_iff.mp found, ← whole, List.append_assoc, List.append_assoc]
    next => exact absurd chained.symm (Option.some_ne_none behind)
  · rintro ⟨lead, ⟨blanks, condition, areBlank, filled, isMarked, rfl⟩, rfl⟩
    refine ⟨blanks ++ (condition ++ behind), by simp, ?_⟩
    have spaced : (blanks ++ (condition ++ behind)).head?.any Text.isBlank = true := by
      cases blanks with
      | nil => exact absurd rfl filled
      | cons first later => exact areBlank first List.mem_cons_self
    have dropped :
        (blanks ++ (condition ++ behind)).dropWhile Text.isBlank = condition ++ behind := by
      obtain ⟨between, -, rfl⟩ := isMarked
      rw [List.dropWhile_append_of_pos areBlank]
      rfl
    rw [if_pos spaced, dropped]
    exact (marked_eq_some_iff (by decide)).mpr ⟨condition, isMarked, rfl⟩

/-- What a header is written as, up to its mark or to the end of its keyword. -/
def Kind.IsLead : Kind → Text → Prop
  | ifHeader, lead => IsMarked "if".toList '(' lead
  | elseIfHeader, lead => IsChain lead
  | elseHeader, lead => lead = "else".toList
  | switchHeader, lead => IsMarked "switch".toList '(' lead
  | caseLabel, lead => lead = "case".toList
  | defaultLabel, lead => IsMarked "default".toList ':' lead

theorem startsWith_iff {shape : Text → Prop} :
    StartsWith shape text ↔ ∃ behind lead, shape lead ∧ text = lead ++ behind := by
  constructor
  · rintro ⟨lead, isShape, behind, rfl⟩
    exact ⟨behind, lead, isShape, rfl⟩
  · rintro ⟨behind, lead, isShape, rfl⟩
    exact ⟨lead, isShape, behind, rfl⟩

theorem afterElseIf?_eq_none_iff : afterElseIf? text = none ↔ ¬StartsWith IsChain text := by
  rw [startsWith_iff, Option.eq_none_iff_forall_ne_some]
  simp only [ne_eq, afterElseIf?_eq_some_iff, not_exists]

theorem IsChain.startsWithWord {lead : Text} (isChain : IsChain lead) (behind : Text) :
    StartsWithWord "else".toList (lead ++ behind) := by
  obtain ⟨blanks, condition, areBlank, filled, -, rfl⟩ := isChain
  refine ⟨blanks ++ (condition ++ behind), by simp, ?_⟩
  cases blanks with
  | nil => exact absurd rfl filled
  | cons first later =>
      rintro next ⟨⟩
      exact Text.isWordCharacter_of_isBlank (areBlank first List.mem_cons_self)

theorem opens_of_headerAt? {kind : Kind} (found : headerAt? text = some (kind, behind)) :
    kind.Opens text ∧ ∃ lead, kind.IsLead lead ∧ text = lead ++ behind := by
  unfold headerAt? at found
  simp only [Option.orElse_eq_orElse, Option.orElse_eq_or, Option.or_eq_some_iff,
    Option.map_eq_some_iff, Option.map_eq_none_iff, Prod.mk.injEq] at found
  obtain ⟨_, read, rfl, rfl⟩ | ⟨noChain, ⟨_, read, rfl, rfl⟩ | ⟨-, ⟨_, read, rfl, rfl⟩ |
    ⟨-, ⟨_, read, rfl, rfl⟩ | ⟨-, ⟨_, read, rfl, rfl⟩ | ⟨-, _, read, rfl, rfl⟩⟩⟩⟩⟩ := found
  · obtain ⟨lead, isChain, rfl⟩ := afterElseIf?_eq_some_iff.mp read
    exact ⟨⟨isChain.startsWithWord _, lead, isChain, List.prefix_append _ _⟩, lead, isChain, rfl⟩
  · obtain ⟨lead, isMarked, rfl⟩ := (marked_eq_some_iff (by decide)).mp read
    exact ⟨⟨lead, isMarked, List.prefix_append _ _⟩, lead, isMarked, rfl⟩
  · obtain ⟨whole, ends⟩ := afterWord?_eq_some_iff.mp read
    exact ⟨⟨⟨_, whole, ends⟩, afterElseIf?_eq_none_iff.mp noChain⟩, _, rfl, whole⟩
  · obtain ⟨lead, isMarked, rfl⟩ := (marked_eq_some_iff (by decide)).mp read
    exact ⟨⟨lead, isMarked, List.prefix_append _ _⟩, lead, isMarked, rfl⟩
  · obtain ⟨whole, ends⟩ := afterWord?_eq_some_iff.mp read
    exact ⟨⟨_, whole, ends⟩, _, rfl, whole⟩
  · obtain ⟨lead, isMarked, rfl⟩ := (marked_eq_some_iff (by decide)).mp read
    exact ⟨⟨lead, isMarked, List.prefix_append _ _⟩, lead, isMarked, rfl⟩

theorem marked_of_isMarked {lead : Text} (isMarked : IsMarked keyword mark lead)
    (solid : Text.isBlank mark = false) (behind : Text) :
    (Text.after? keyword (lead ++ behind)).bind (afterBlanks? mark) = some behind :=
  (marked_eq_some_iff solid).mpr ⟨lead, isMarked, rfl⟩

theorem afterWord?_of_startsWithWord (starts : StartsWithWord keyword (keyword ++ behind)) :
    afterWord? keyword (keyword ++ behind) = some behind := by
  obtain ⟨rest, whole, ends⟩ := starts
  obtain rfl : behind = rest := List.append_cancel_left whole
  exact afterWord?_eq_some_iff.mpr ⟨rfl, ends⟩

theorem headerAt?_of_opens {kind : Kind} {lead : Text} (opens : kind.Opens (lead ++ behind))
    (isLead : kind.IsLead lead) : headerAt? (lead ++ behind) = some (kind, behind) := by
  unfold headerAt?
  cases kind with
  | elseIfHeader =>
      have read : afterElseIf? (lead ++ behind) = some behind :=
        afterElseIf?_eq_some_iff.mpr ⟨lead, isLead, rfl⟩
      rw [read]
      rfl
  | ifHeader =>
      have read := marked_of_isMarked isLead (by decide) behind
      obtain ⟨blanks, -, rfl⟩ := isLead
      have noChain : afterElseIf? ("if".toList ++ (blanks ++ ['(']) ++ behind) = none := rfl
      rw [noChain, read]
      rfl
  | elseHeader =>
      obtain ⟨starts, noChain⟩ := opens
      obtain rfl : lead = "else".toList := isLead
      have noIf : (Text.after? "if".toList ("else".toList ++ behind)).bind (afterBlanks? '(') =
        none := rfl
      rw [afterElseIf?_eq_none_iff.mpr noChain, noIf, afterWord?_of_startsWithWord starts]
      rfl
  | switchHeader =>
      have read := marked_of_isMarked isLead (by decide) behind
      obtain ⟨blanks, -, rfl⟩ := isLead
      rw [read]
      rfl
  | caseLabel =>
      obtain rfl : lead = "case".toList := isLead
      rw [afterWord?_of_startsWithWord opens]
      rfl
  | defaultLabel =>
      have read := marked_of_isMarked isLead (by decide) behind
      obtain ⟨blanks, -, rfl⟩ := isLead
      rw [read]
      rfl

theorem opens_iff {kind : Kind} :
    kind.Opens text ↔ ∃ behind, headerAt? text = some (kind, behind) := by
  constructor
  · intro opens
    have hasLead : ∃ behind lead, kind.IsLead lead ∧ text = lead ++ behind := by
      cases kind with
      | elseIfHeader => exact startsWith_iff.mp opens.2
      | ifHeader | switchHeader | defaultLabel => exact startsWith_iff.mp opens
      | elseHeader =>
          obtain ⟨⟨behind, rfl, -⟩, -⟩ := opens
          exact ⟨behind, _, rfl, rfl⟩
      | caseLabel =>
          obtain ⟨behind, rfl, -⟩ := opens
          exact ⟨behind, _, rfl, rfl⟩
    obtain ⟨behind, lead, isLead, rfl⟩ := hasLead
    exact ⟨behind, headerAt?_of_opens opens isLead⟩
  · rintro ⟨behind, found⟩
    exact (opens_of_headerAt? found).1

end Reading

section Inside

variable {start front tail behind : Text}

theorem EndsWords.of_append (ends : EndsWords (start ++ front)) : EndsWords front := by
  intro last isLast
  apply ends last
  rw [List.getLast?_append, Option.mem_def.mp isLast]
  rfl

theorem startsName_of_headerAt? {text : Text} {kind : Kind}
    (found : headerAt? text = some (kind, behind)) :
    ∃ first later, text = first :: later ∧ Text.isNameStart first = true := by
  obtain ⟨-, lead, isLead, rfl⟩ := opens_of_headerAt? found
  cases kind with
  | ifHeader | switchHeader | defaultLabel =>
      obtain ⟨blanks, -, rfl⟩ := isLead
      exact ⟨_, _, rfl, by decide⟩
  | elseIfHeader =>
      obtain ⟨blanks, condition, -, -, -, rfl⟩ := isLead
      exact ⟨_, _, rfl, by decide⟩
  | elseHeader | caseLabel =>
      obtain rfl := isLead
      exact ⟨_, _, rfl, by decide⟩

/-- No header starts within a word or at what is behind it and starts no name. -/
theorem headerAt?_inside {word others : Text} (whole : front ++ tail = word ++ others)
    (areWord : word.all Text.isWordCharacter = true)
    (noName : ∀ character ∈ others, Text.isNameStart character = false)
    (begun : front ≠ []) (left : tail ≠ []) (ends : EndsWords front) (behind : Text) :
    headerAt? (tail ++ behind) = none := by
  rcases List.append_eq_append_iff.mp whole with ⟨more, wordEq, -⟩ | ⟨passed, -, othersEq⟩
  · obtain ⟨last, isLast⟩ := Option.isSome_iff_exists.mp (List.getLast?_isSome.mpr begun)
    have inWord : last ∈ word := by
      rw [wordEq]
      exact List.mem_append_left more (List.mem_of_getLast? isLast)
    have stops := ends last isLast
    rw [List.all_eq_true.mp areWord last inWord] at stops
    cases stops
  · rw [Option.eq_none_iff_forall_ne_some]
    rintro ⟨kind, rest⟩ found
    obtain ⟨first, later, starts, isName⟩ := startsName_of_headerAt? found
    cases tail with
    | nil => exact left rfl
    | cons character others =>
        obtain ⟨rfl, -⟩ := List.cons.inj starts
        have inOthers : character ∈ passed ++ character :: others := by simp
        rw [← othersEq] at inOthers
        rw [noName character inOthers] at isName
        cases isName

theorem noName_blanks_mark {blanks : Text} {mark : Char} (areBlank : IsBlankText blanks)
    (noName : Text.isNameStart mark = false) :
    ∀ character ∈ blanks ++ [mark], Text.isNameStart character = false := by
  intro character membership
  rcases List.mem_append.mp membership with isBlank | isMark
  · exact Text.isNameStart_of_isBlank (areBlank character isBlank)
  · rw [List.mem_singleton.mp isMark]
    exact noName

/-- Within a chain of an `else` and an `if` only the latter starts a header. -/
theorem inside_chain {other : Kind} {rest : Text} (isChain : IsChain (front ++ tail))
    (begun : front ≠ []) (left : tail ≠ []) (startsWord : EndsWords start)
    (ends : EndsWords (start ++ front)) (found : headerAt? (tail ++ behind) = some (other, rest)) :
    other = .ifHeader ∧ EndsInElse (start ++ front) := by
  obtain ⟨blanks, condition, areBlank, filled, isMarked, whole⟩ := isChain
  have atIf (frontEq : front = "else".toList ++ blanks) (tailEq : tail = condition) :
      other = .ifHeader ∧ EndsInElse (start ++ front) := by
    have isIf : headerAt? (condition ++ behind) = some (.ifHeader, behind) :=
      headerAt?_of_opens ⟨condition, isMarked, List.prefix_append _ _⟩ isMarked
    rw [tailEq, isIf] at found
    obtain ⟨rfl, -⟩ := Prod.mk.inj (Option.some.inj found)
    exact ⟨rfl, start, blanks, startsWord, areBlank, filled, by rw [frontEq]⟩
  rw [← List.append_assoc] at whole
  rcases List.append_eq_append_iff.mp whole with ⟨more, elseEq, tailEq⟩ | ⟨passed, frontEq, ifEq⟩
  · by_cases atEnd : more = []
    · rw [atEnd, List.append_nil] at elseEq
      rw [atEnd, List.nil_append] at tailEq
      exact atIf elseEq.symm tailEq
    · have absent : headerAt? (more ++ (condition ++ behind)) = none :=
        headerAt?_inside elseEq.symm rfl
          (fun character isBlank => Text.isNameStart_of_isBlank (areBlank character isBlank))
          begun atEnd ends.of_append _
      rw [tailEq, List.append_assoc, absent] at found
      cases found
  · by_cases atStart : passed = []
    · rw [atStart, List.append_nil] at frontEq
      rw [atStart, List.nil_append] at ifEq
      exact atIf frontEq ifEq.symm
    · obtain ⟨between, betweenBlank, conditionEq⟩ := isMarked
      rw [frontEq, ← List.append_assoc] at ends
      have absent : headerAt? (tail ++ behind) = none :=
        headerAt?_inside (ifEq.symm.trans conditionEq) rfl
          (noName_blanks_mark betweenBlank (by decide)) atStart left ends.of_append behind
      rw [absent] at found
      cases found

/-- No other header starts within a header, but for the `if` of a chain. -/
theorem inside_lead {kind other : Kind} {rest : Text} (isLead : kind.IsLead (front ++ tail))
    (begun : front ≠ []) (left : tail ≠ []) (startsWord : EndsWords start)
    (ends : EndsWords (start ++ front)) (found : headerAt? (tail ++ behind) = some (other, rest)) :
    other = .ifHeader ∧ EndsInElse (start ++ front) := by
  have refuted {word others : Text} (whole : front ++ tail = word ++ others)
      (areWord : word.all Text.isWordCharacter = true)
      (noName : ∀ character ∈ others, Text.isNameStart character = false) : False := by
    rw [headerAt?_inside whole areWord noName begun left ends.of_append behind] at found
    cases found
  cases kind with
  | elseIfHeader => exact inside_chain isLead begun left startsWord ends found
  | ifHeader | switchHeader | defaultLabel =>
      obtain ⟨blanks, areBlank, whole⟩ := isLead
      exact (refuted whole rfl (noName_blanks_mark areBlank (by decide))).elim
  | elseHeader | caseLabel =>
      exact (refuted (isLead.trans (List.append_nil _).symm) rfl (by simp)).elim

end Inside

section Scan

variable {before text lead behind : Text} {kind : Kind} {found : Occurrence}

/-- Whether a header found on a line is one that starts behind a text. -/
structure Occurrence.StandsAt (found : Occurrence) (front lead behind : Text) : Prop where
  endsWords : EndsWords front
  reads : headerAt? (lead ++ behind) = some (found.kind, behind)
  unchained : ¬(found.kind = .ifHeader ∧ EndsInElse front)
  column_eq : found.column = Text.byteSize front
  stop_eq : found.stop = Text.byteSize (front ++ lead)

def Occurrence.Within (found : Occurrence) (before text : Text) : Prop :=
  ∃ front lead behind, text = front ++ (lead ++ behind) ∧
    found.StandsAt (before ++ front) lead behind

/-- Whether no chain that starts in a text goes on behind it. -/
def Passed (before text : Text) : Prop :=
  ∀ start chain behind, before ++ text = start ++ (chain ++ behind) → EndsWords start →
    IsChain chain → start.length < before.length → (start ++ chain).length ≤ before.length

/-- The mark of a header, or the last letter of its keyword. -/
def Kind.lastCharacter : Kind → Char
  | ifHeader | elseIfHeader | switchHeader => '('
  | elseHeader | caseLabel => 'e'
  | defaultLabel => ':'

theorem Kind.IsLead.ends (isLead : kind.IsLead lead) :
    ∃ first middle, lead = first :: (middle ++ [kind.lastCharacter]) ∧ first ≠ ' ' := by
  cases kind with
  | ifHeader =>
      obtain ⟨blanks, -, rfl⟩ := isLead
      exact ⟨'i', 'f' :: blanks, rfl, by decide⟩
  | elseIfHeader =>
      obtain ⟨blanks, _, -, -, ⟨between, -, rfl⟩, rfl⟩ := isLead
      refine ⟨'e', "lse".toList ++ (blanks ++ ("if".toList ++ between)), ?_, by decide⟩
      simp [Kind.lastCharacter]
  | elseHeader =>
      obtain rfl := isLead
      exact ⟨'e', "ls".toList, rfl, by decide⟩
  | switchHeader =>
      obtain ⟨blanks, -, rfl⟩ := isLead
      exact ⟨'s', "witch".toList ++ blanks, rfl, by decide⟩
  | caseLabel =>
      obtain rfl := isLead
      exact ⟨'c', "as".toList, rfl, by decide⟩
  | defaultLabel =>
      obtain ⟨blanks, -, rfl⟩ := isLead
      exact ⟨'d', "efault".toList ++ blanks, rfl, by decide⟩

theorem endsWords_concat (character : Char) :
    EndsWords (before ++ [character]) ↔ Text.isWordCharacter character = false := by
  simp [EndsWords]

theorem within_cons_iff {character : Char} {rest : Text}
    (absent : ∀ lead behind, character :: rest = lead ++ behind →
      ¬found.StandsAt before lead behind) :
    found.Within before (character :: rest) ↔ found.Within (before ++ [character]) rest := by
  constructor
  · rintro ⟨front, lead, behind, textEq, stands⟩
    cases front with
    | nil =>
        rw [List.append_nil] at stands
        exact absurd stands (absent lead behind textEq)
    | cons first front =>
        obtain ⟨rfl, restEq⟩ := List.cons.inj textEq
        refine ⟨front, lead, behind, restEq, ?_⟩
        rwa [List.append_assoc]
  · rintro ⟨front, lead, behind, rfl, stands⟩
    refine ⟨character :: front, lead, behind, rfl, ?_⟩
    rwa [List.append_assoc] at stands

theorem within_lead_iff (startsWord : EndsWords before)
    (reads : headerAt? (lead ++ behind) = some (kind, behind)) (isLead : kind.IsLead lead) :
    found.Within before (lead ++ behind) ↔
      found.StandsAt before lead behind ∨ found.Within (before ++ lead) behind := by
  constructor
  · rintro ⟨front, otherLead, otherBehind, textEq, stands⟩
    by_cases atStart : front = []
    · subst atStart
      rw [List.nil_append] at textEq
      rw [List.append_nil] at stands
      have sameReads := stands.reads
      rw [← textEq, reads] at sameReads
      obtain ⟨-, rfl⟩ := Prod.mk.inj (Option.some.inj sameReads)
      obtain rfl := List.append_cancel_right textEq
      exact .inl stands
    · rcases List.append_eq_append_iff.mp textEq with
        ⟨more, rfl, behindEq⟩ | ⟨tail, rfl, restEq⟩
      · rw [← List.append_assoc] at stands
        exact .inr ⟨more, otherLead, otherBehind, behindEq, stands⟩
      · by_cases atEnd : tail = []
        · subst atEnd
          rw [List.nil_append] at restEq
          rw [← List.append_nil (before ++ front)] at stands
          rw [List.append_nil]
          exact .inr ⟨[], otherLead, otherBehind, restEq.symm, stands⟩
        · have within := stands.reads
          rw [restEq] at within
          exact absurd (inside_lead isLead atStart atEnd startsWord stands.endsWords within)
            stands.unchained
  · rintro (stands | ⟨front, otherLead, otherBehind, rfl, stands⟩)
    · rw [← List.append_nil before] at stands
      exact ⟨[], lead, behind, rfl, stands⟩
    · rw [List.append_assoc] at stands
      exact ⟨lead ++ front, otherLead, otherBehind, (List.append_assoc _ _ _).symm, stands⟩

theorem IsChain.headerAt? {chain : Text} (isChain : IsChain chain) (behind : Text) :
    headerAt? (chain ++ behind) = some (.elseIfHeader, behind) :=
  headerAt?_of_opens ⟨isChain.startsWithWord behind, chain, isChain, List.prefix_append _ _⟩ isChain

theorem Passed.cons {character : Char} {rest : Text} (passed : Passed before (character :: rest))
    (absent : EndsWords before → Branch.headerAt? (character :: rest) = none) :
    Passed (before ++ [character]) rest := by
  intro start chain behind whole startsWord isChain startsBefore
  rw [List.append_assoc, List.singleton_append] at whole
  simp only [List.length_append, List.length_singleton] at startsBefore ⊢
  by_cases earlier : start.length < before.length
  · have ended := passed start chain behind whole startsWord isChain earlier
    rw [List.length_append] at ended
    omega
  · obtain ⟨rfl, textEq⟩ := List.append_inj whole (by omega)
    have none := absent startsWord
    rw [textEq, isChain.headerAt?] at none
    cases none

theorem Passed.behindLead (passed : Passed before (lead ++ behind)) (startsWord : EndsWords before)
    (reads : Branch.headerAt? (lead ++ behind) = some (kind, behind))
    (isLead : kind.IsLead lead) : Passed (before ++ lead) behind := by
  intro start chain later whole chainStarts isChain startsBefore
  rw [List.append_assoc] at whole
  simp only [List.length_append] at startsBefore ⊢
  rcases Nat.lt_trichotomy start.length before.length with earlier | here | inside
  · have ended := passed start chain later whole chainStarts isChain earlier
    rw [List.length_append] at ended
    omega
  · obtain ⟨rfl, textEq⟩ := List.append_inj whole here.symm
    rw [textEq, isChain.headerAt?] at reads
    obtain ⟨-, rfl⟩ := Prod.mk.inj (Option.some.inj reads)
    obtain rfl := List.append_cancel_right textEq
    exact Nat.le_refl _
  · rcases List.append_eq_append_iff.mp whole with ⟨front, rfl, textEq⟩ | ⟨_, rfl, -⟩
    · rw [List.length_append] at startsBefore inside
      rcases List.append_eq_append_iff.mp textEq with ⟨_, rfl, -⟩ | ⟨tail, rfl, restEq⟩
      · rw [List.length_append] at startsBefore
        omega
      · have within := isChain.headerAt? later
        rw [restEq] at within
        have begun : front ≠ [] := by
          rintro rfl
          simp at inside
        have left : tail ≠ [] := by
          rintro rfl
          simp at startsBefore
        obtain ⟨isIf, -⟩ := inside_lead isLead begun left startsWord chainStarts within
        cases isIf
    · rw [List.length_append] at inside
      omega

/-- A header that is read where no chain goes on stands there. -/
theorem standsAt_iff (startsWord : EndsWords before)
    (reads : Branch.headerAt? (lead ++ behind) = some (kind, behind)) (isLead : kind.IsLead lead)
    (passed : Passed before (lead ++ behind)) :
    found.StandsAt before lead behind ↔
      found = { kind, column := Text.byteSize before, stop := Text.byteSize (before ++ lead) } := by
  constructor
  · rintro ⟨-, sameReads, -, columnEq, stopEq⟩
    rw [reads] at sameReads
    obtain ⟨kindEq, -⟩ := Prod.mk.inj (Option.some.inj sameReads)
    cases found
    simp_all
  · rintro rfl
    refine ⟨startsWord, reads, ?_, rfl, rfl⟩
    rintro ⟨isIf, start, blanks, startWord, areBlank, filled, rfl⟩
    obtain rfl : kind = .ifHeader := isIf
    have chained : IsChain ("else".toList ++ (blanks ++ lead)) :=
      ⟨blanks, lead, areBlank, filled, isLead, rfl⟩
    have ended := passed start _ behind (by simp) startWord chained (by simp)
    obtain ⟨first, middle, rfl, -⟩ := isLead.ends
    simp only [List.length_append, List.length_cons] at ended
    omega

/-- The headers found in the rest of a line are those that stand there. -/
theorem mem_occurrencesFrom_iff {afterWord : Bool}
    (boundary : afterWord = false ↔ EndsWords before) (passed : Passed before text) :
    found ∈ occurrencesFrom (Text.byteSize before) afterWord 0 text ↔
      found.Within before text := by
  -- A header is passed as a whole, so the induction is on how much of the line is left.
  induction size : text.length using Nat.strongRecOn generalizing before text afterWord with
  | _ size inductionHypothesis =>
    subst size
    cases text with
    | nil =>
        refine ⟨fun membership => absurd membership List.not_mem_nil, ?_⟩
        rintro ⟨front, lead, behind, textEq, stands⟩
        obtain ⟨first, later, leadEq, -⟩ := startsName_of_headerAt? stands.reads
        rw [leadEq] at textEq
        simp at textEq
    | cons character rest =>
        cases here : (if afterWord then none else headerAt? (character :: rest)) with
        | none =>
            have absent (startsWord : EndsWords before) : headerAt? (character :: rest) = none := by
              rwa [boundary.mpr startsWord] at here
            have reached : Text.byteSize before + character.utf8Size =
                Text.byteSize (before ++ [character]) := by simp
            rw [occurrencesFrom_none here, within_cons_iff, reached]
            · exact inductionHypothesis rest.length (by simp) (endsWords_concat character).symm
                (passed.cons absent) rfl
            · intro lead behind textEq stands
              have reads := stands.reads
              rw [← textEq, absent stands.endsWords] at reads
              cases reads
        | some header =>
            obtain ⟨kind, behind⟩ := header
            obtain rfl : afterWord = false := by
              cases afterWord with
              | false => rfl
              | true => cases here
            have startsWord := boundary.mp rfl
            obtain ⟨-, lead, isLead, textEq⟩ := opens_of_headerAt? here
            obtain ⟨first, middle, leadEq, -⟩ := isLead.ends
            have shape : first :: (middle ++ kind.lastCharacter :: behind) = lead ++ behind := by
              simp [leadEq]
            rw [textEq] at passed
            have reads : headerAt? (lead ++ behind) = some (kind, behind) := textEq ▸ here
            have ended : before ++ lead = before ++ first :: middle ++ [kind.lastCharacter] := by
              simp [leadEq]
            have scanned := occurrencesFrom_found (Text.byteSize before) (shape ▸ reads)
            rw [← leadEq, ← Text.byteSize_append, shape] at scanned
            rw [textEq, scanned, List.mem_cons, within_lead_iff startsWord reads isLead,
              standsAt_iff startsWord reads isLead passed]
            apply or_congr Iff.rfl
            apply inductionHypothesis behind.length
            · rw [textEq, leadEq]
              simp only [List.length_append, List.length_cons]
              omega
            · rw [ended]
              exact (endsWords_concat _).symm
            · exact passed.behindLead startsWord reads isLead
            · rfl

theorem mem_occurrences_iff {masked : Text} :
    found ∈ occurrences masked ↔
      ∃ front lead behind, masked = front ++ (lead ++ behind) ∧
        found.StandsAt front lead behind := by
  have noChain : Passed [] masked := by
    intro start chain behind _ _ _ startsBefore
    exact absurd startsBefore (Nat.not_lt_zero _)
  have boundary : false = false ↔ EndsWords [] := by simp [EndsWords]
  exact mem_occurrencesFrom_iff boundary noChain

end Scan

theorem kind_ofOccurrence (masked raw : Text) (found : Occurrence) :
    (Header.ofOccurrence masked raw found).kind = found.kind := by
  unfold Header.ofOccurrence
  split
  · split <;> rfl
  · rfl

/-- The headers of a line are, from left to right, those that open where a word
can start, but for an `if` that belongs to the `else` before it. -/
theorem pairwise_headers_and_opens_iff (masked raw : Text) :
    (headers masked raw).Pairwise (·.column < ·.column) ∧
      ∀ (column : Nat) (kind : Kind),
        (∃ header ∈ headers masked raw, header.column = column ∧ header.kind = kind) ↔
          ∃ front rest, masked = front ++ rest ∧ Text.byteSize front = column ∧
            EndsWords front ∧ kind.Opens rest ∧ ¬(kind = .ifHeader ∧ EndsInElse front) := by
  refine ⟨(placed_headers masked raw).pairwise, ?_⟩
  intro column kind
  constructor
  · rintro ⟨header, membership, rfl, rfl⟩
    obtain ⟨found, inLine, rfl⟩ := List.mem_map.mp membership
    obtain ⟨front, lead, behind, maskedEq, stands⟩ := mem_occurrences_iff.mp inLine
    rw [column_ofOccurrence, kind_ofOccurrence]
    refine ⟨front, lead ++ behind, maskedEq, stands.column_eq.symm, stands.endsWords, ?_,
      stands.unchained⟩
    exact opens_iff.mpr ⟨behind, stands.reads⟩
  · rintro ⟨front, rest, maskedEq, columnEq, ends, opens, unchained⟩
    obtain ⟨behind, reads⟩ := opens_iff.mp opens
    obtain ⟨-, lead, -, rfl⟩ := opens_of_headerAt? reads
    let found : Occurrence :=
      { kind, column := column, stop := Text.byteSize (front ++ lead) }
    have stands : found.StandsAt front lead behind :=
      { endsWords := ends, reads, unchained, column_eq := columnEq.symm, stop_eq := rfl }
    refine ⟨Header.ofOccurrence masked raw found, ?_, ?_, ?_⟩
    · exact List.mem_map_of_mem (mem_occurrences_iff.mpr ⟨front, lead, behind, maskedEq, stands⟩)
    · exact column_ofOccurrence masked raw found
    · exact kind_ofOccurrence masked raw found

end ChangeCoverage.Branch
