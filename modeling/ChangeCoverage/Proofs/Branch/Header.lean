import ChangeCoverage.Branch.Header
import ChangeCoverage.Proofs.Branch.Condition
import ChangeCoverage.Proofs.Source.Margin

/-!
The headers on lines that are written as expected.  A header found in a text is
also found without a closing parenthesis behind the text, so a condition that
holds no header adds none to its line.
-/

namespace ChangeCoverage.Branch

theorem after?_stop {marker text : Text} (noStop : ')' ∉ marker) (back : Text)
    {following : Text} (found : Text.after? marker (text ++ ')' :: back) = some following) :
    ∃ rest, Text.after? marker text = some rest ∧ following = rest ++ ')' :: back := by
  rw [Text.after?_eq_some_iff] at found
  rcases List.append_eq_append_iff.mp found with ⟨extra, markerEq, backEq⟩ | ⟨rest, textEq, restEq⟩
  · cases extra with
    | nil =>
        rw [List.append_nil] at markerEq
        rw [List.nil_append] at backEq
        refine ⟨[], ?_, ?_⟩
        · rw [Text.after?_eq_some_iff, markerEq, List.append_nil]
        · rw [← backEq]
          rfl
    | cons character more =>
        obtain ⟨rfl, _⟩ := List.cons.inj backEq
        exact absurd (markerEq ▸ List.mem_append_right text List.mem_cons_self) noStop
  · exact ⟨rest, Text.after?_eq_some_iff.mpr textEq, restEq⟩

theorem dropWhile_isBlank_stop (text back : Text) :
    (text ++ ')' :: back).dropWhile Text.isBlank = text.dropWhile Text.isBlank ++ ')' :: back := by
  induction text with
  | nil => rfl
  | cons character rest inductionHypothesis =>
      rw [List.cons_append, List.dropWhile_cons, List.dropWhile_cons]
      split
      · exact inductionHypothesis
      · rfl

theorem afterBlanks?_stop {expected : Char} (noStop : expected ≠ ')') {text : Text} (back : Text)
    (none : afterBlanks? expected text = none) :
    afterBlanks? expected (text ++ ')' :: back) = Option.none := by
  unfold afterBlanks? at none ⊢
  rw [dropWhile_isBlank_stop]
  cases found : Text.after? [expected] (text.dropWhile Text.isBlank ++ ')' :: back) with
  | none => rfl
  | some following =>
      obtain ⟨rest, foundBefore, _⟩ := after?_stop (by simpa using noStop.symm) back found
      rw [foundBefore] at none
      exact absurd none (Option.some_ne_none rest)

/-- A keyword with something behind its blanks is not completed by a parenthesis. -/
theorem bind_afterBlanks?_stop {keyword : Text} {expected : Char} (noStop : ')' ∉ keyword)
    (other : expected ≠ ')') {text : Text} (back : Text)
    (none : (Text.after? keyword text).bind (afterBlanks? expected) = none) :
    (Text.after? keyword (text ++ ')' :: back)).bind (afterBlanks? expected) = Option.none := by
  cases found : Text.after? keyword (text ++ ')' :: back) with
  | none => rfl
  | some following =>
      obtain ⟨rest, foundBefore, rfl⟩ := after?_stop noStop back found
      rw [foundBefore, Option.bind_some] at none
      exact afterBlanks?_stop other back none

theorem afterWord?_stop {keyword : Text} (noStop : ')' ∉ keyword) {text : Text} (back : Text)
    (none : afterWord? keyword text = none) :
    afterWord? keyword (text ++ ')' :: back) = Option.none := by
  unfold afterWord? at none ⊢
  cases found : Text.after? keyword (text ++ ')' :: back) with
  | none => rfl
  | some following =>
      obtain ⟨rest, foundBefore, rfl⟩ := after?_stop noStop back found
      rw [foundBefore] at none
      cases rest with
      | nil => exact absurd none (Option.some_ne_none [])
      | cons character later =>
          have samePlace : endsWord (character :: later ++ ')' :: back) =
              endsWord (character :: later) := rfl
          cases ends : endsWord (character :: later) with
          | true =>
              rw [Option.filter_some, if_pos ends] at none
              exact absurd none (Option.some_ne_none _)
          | false => rw [Option.filter_some, samePlace, ends, if_neg Bool.false_ne_true]

theorem afterElseIf?_stop {text : Text} (back : Text) (none : afterElseIf? text = none) :
    afterElseIf? (text ++ ')' :: back) = Option.none := by
  unfold afterElseIf? at none ⊢
  cases found : Text.after? "else".toList (text ++ ')' :: back) with
  | none => rfl
  | some following =>
      obtain ⟨rest, foundBefore, rfl⟩ := after?_stop (by decide) back found
      rw [foundBefore] at none
      cases rest with
      | nil => rfl
      | cons character later =>
          have spaced : (character :: later ++ ')' :: back).head?.any Text.isBlank =
              (character :: later).head?.any Text.isBlank := rfl
          simp only [Option.bind_eq_bind, Option.bind_some, spaced] at none ⊢
          split at none
          next blank =>
            rw [if_pos blank, dropWhile_isBlank_stop]
            exact bind_afterBlanks?_stop (by decide) (by decide) back none
          next solid => rw [if_neg solid]

/-- A parenthesis behind a text that is no header makes it none. -/
theorem headerAt?_stop {text : Text} (back : Text) (none : headerAt? text = none) :
    headerAt? (text ++ ')' :: back) = Option.none := by
  unfold headerAt? at none ⊢
  simp only [Option.orElse_eq_orElse, Option.orElse_eq_or, Option.or_eq_none_iff,
    Option.map_eq_none_iff] at none ⊢
  obtain ⟨elseIf, ifNone, elseNone, switchNone, caseNone, defaultNone⟩ := none
  exact ⟨afterElseIf?_stop back elseIf,
    bind_afterBlanks?_stop (by decide) (by decide) back ifNone,
    afterWord?_stop (by decide) back elseNone,
    bind_afterBlanks?_stop (by decide) (by decide) back switchNone,
    afterWord?_stop (by decide) back caseNone,
    bind_afterBlanks?_stop (by decide) (by decide) back defaultNone⟩

theorem occurrencesFrom_none {offset : Nat} {afterWord : Bool} {character : Char} {rest : Text}
    (none : (if afterWord then none else headerAt? (character :: rest)) = none) :
    occurrencesFrom offset afterWord 0 (character :: rest) =
      occurrencesFrom (offset + character.utf8Size) (Text.isWordCharacter character) 0 rest := by
  rw [occurrencesFrom, none]
  rfl

theorem occurrencesFrom_eq_nil {offset : Nat} {afterWord : Bool} {text : Text}
    (none : occurrencesFrom offset afterWord 0 text = []) (other : Nat) :
    occurrencesFrom other afterWord 0 text = [] := by
  induction text generalizing offset afterWord other with
  | nil => rfl
  | cons character rest inductionHypothesis =>
      cases found : (if afterWord then Option.none else headerAt? (character :: rest)) with
      | some header =>
          rw [occurrencesFrom, found] at none
          exact absurd none (List.cons_ne_nil _ _)
      | none =>
          rw [occurrencesFrom_none found] at none ⊢
          exact inductionHypothesis none _

/-- A text that holds no header holds none in front of the end of a condition. -/
theorem occurrencesFrom_stop {offset : Nat} {afterWord : Bool} {text : Text}
    (none : occurrencesFrom offset afterWord 0 text = []) :
    occurrencesFrom offset afterWord 0 (text ++ [')', ' ', '{']) = [] := by
  induction text generalizing offset afterWord with
  | nil => cases afterWord <;> rfl
  | cons character rest inductionHypothesis =>
      cases found : (if afterWord then Option.none else headerAt? (character :: rest)) with
      | some header =>
          rw [occurrencesFrom, found] at none
          exact absurd none (List.cons_ne_nil _ _)
      | none =>
          rw [occurrencesFrom_none found] at none
          have stillNone : (if afterWord then Option.none else
              headerAt? (character :: (rest ++ [')', ' ', '{']))) = Option.none := by
            cases afterWord with
            | true => rfl
            | false => exact headerAt?_stop [' ', '{'] found
          rw [List.cons_append, occurrencesFrom_none stillNone]
          exact inductionHypothesis none

theorem occurrencesFrom_skip (offset : Nat) (afterWord : Bool) (skipped : Text) (last : Char)
    (text : Text) :
    occurrencesFrom offset afterWord (skipped.length + 1) (skipped ++ last :: text) =
      occurrencesFrom (offset + (Text.byteSize skipped + last.utf8Size))
        (Text.isWordCharacter last) 0 text := by
  induction skipped generalizing offset afterWord with
  | nil => rw [List.nil_append, List.length_nil, occurrencesFrom, Text.byteSize_nil, Nat.zero_add]
  | cons character rest inductionHypothesis =>
      rw [List.cons_append, List.length_cons, occurrencesFrom, inductionHypothesis,
        Text.byteSize_cons]
      congr 1
      omega

/-- A header at the front of a text is found, and then those behind it. -/
theorem occurrencesFrom_found {first last : Char} {middle text : Text} {kind : Kind}
    (offset : Nat) (found : headerAt? (first :: (middle ++ last :: text)) = some (kind, text)) :
    occurrencesFrom offset false 0 (first :: (middle ++ last :: text)) =
      { kind, column := offset, stop := offset + Text.byteSize (first :: (middle ++ [last])) } ::
        occurrencesFrom (offset + Text.byteSize (first :: (middle ++ [last])))
          (Text.isWordCharacter last) 0 text := by
  have consumed : (first :: (middle ++ last :: text)).take
      ((middle ++ last :: text).length + 1 - text.length) = first :: (middle ++ [last]) := by
    have whole : first :: (middle ++ last :: text) = first :: (middle ++ [last]) ++ text := by simp
    have length : (middle ++ last :: text).length + 1 - text.length =
        (first :: (middle ++ [last])).length := by
      simp only [List.length_append, List.length_cons, List.length_nil]
      omega
    rw [length, whole, List.take_left]
  have further : (first :: (middle ++ [last])).length - 1 = middle.length + 1 := by simp
  rw [occurrencesFrom]
  simp only [Bool.false_eq_true, if_false, found, Option.elim_some, consumed, Option.map_some,
    Option.toList_some, List.singleton_append, further]
  rw [occurrencesFrom_skip]
  congr 2
  simp only [Text.byteSize_cons, Text.byteSize_append, Text.byteSize_nil]
  omega

/-- No keyword starts at a blank. -/
theorem headerAt?_blank {character : Char} (blank : Text.isBlank character = true) (rest : Text) :
    headerAt? (character :: rest) = none := by
  have absent {first : Char} (solid : Text.isBlank first = false) (marker : Text) :
      Text.after? (first :: marker) (character :: rest) = none :=
    Text.after?_blank blank solid marker rest
  have elseAbsent : Text.after? "else".toList (character :: rest) = none := absent (by decide) _
  have ifAbsent : Text.after? "if".toList (character :: rest) = none := absent (by decide) _
  have switchAbsent : Text.after? "switch".toList (character :: rest) = none :=
    absent (by decide) _
  have caseAbsent : Text.after? "case".toList (character :: rest) = none := absent (by decide) _
  have defaultAbsent : Text.after? "default".toList (character :: rest) = none :=
    absent (by decide) _
  simp only [headerAt?, afterElseIf?, afterWord?, elseAbsent, ifAbsent, switchAbsent, caseAbsent,
    defaultAbsent]
  rfl

theorem occurrencesFrom_margin {margin : Text} (isMargin : Source.IsMargin margin) (offset : Nat)
    (rest : Text) :
    occurrencesFrom offset false 0 (margin ++ rest) =
      occurrencesFrom (offset + Text.byteSize margin) false 0 rest := by
  induction margin generalizing offset with
  | nil => rfl
  | cons character later inductionHypothesis =>
      have passed := inductionHypothesis isMargin.cons.2 (offset + character.utf8Size)
      rw [Text.byteSize_cons, ← Nat.add_assoc, ← passed]
      rcases isMargin.cons.1 with rfl | rfl <;> exact occurrencesFrom_none rfl

theorem headers_blank {masked : Text} (blank : Text.IsBlankText masked) (raw : Text) :
    headers masked raw = [] := by
  have none (offset : Nat) (afterWord : Bool) : occurrencesFrom offset afterWord 0 masked = [] := by
    induction masked generalizing offset afterWord with
    | nil => rfl
    | cons character rest inductionHypothesis =>
        have absent : (if afterWord then Option.none else headerAt? (character :: rest)) =
            Option.none := by
          rw [headerAt?_blank blank.cons.1, ite_self]
        rw [occurrencesFrom_none absent]
        exact inductionHypothesis blank.cons.2 _ _
  rw [headers, occurrences, none, List.map_nil]

/-- A line on which a keyword with a condition opens a block. -/
def conditionLine (lead condition : Text) : Text :=
  lead ++ '(' :: (condition ++ [')', ' ', '{'])

/-- What stands before the parenthesis of a condition: the header it makes up,
and where its keyword starts. -/
structure Leads (lead : Text) (kind : Kind) (column : Nat) (keyword : Text) : Prop where
  finds : ∀ offset text, occurrencesFrom offset false 0 (lead ++ '(' :: text) =
    { kind, column := offset + column, stop := offset + Text.byteSize lead + 1 } ::
      occurrencesFrom (offset + Text.byteSize lead + 1) false 0 text
  keyword_eq : kind.conditionKeyword? = some keyword

theorem leads_if : Leads "if ".toList .ifHeader 0 "if".toList where
  finds offset _ := occurrencesFrom_found offset rfl
  keyword_eq := rfl

theorem leads_switch : Leads "switch ".toList .switchHeader 0 "switch".toList where
  finds offset _ := occurrencesFrom_found offset rfl
  keyword_eq := rfl

/-- What stands before a condition that is chained to a block. -/
def elseIfLead : Text :=
  '}' :: " else if ".toList

theorem leads_elseIf : Leads elseIfLead .elseIfHeader 2 "else if".toList where
  finds offset text := by
    have brace : occurrencesFrom offset false 0 (elseIfLead ++ '(' :: text) =
        occurrencesFrom (offset + 1) false 0 (" else if ".toList ++ '(' :: text) :=
      occurrencesFrom_none rfl
    have space : occurrencesFrom (offset + 1) false 0 (" else if ".toList ++ '(' :: text) =
        occurrencesFrom (offset + 2) false 0 ("else if ".toList ++ '(' :: text) :=
      occurrencesFrom_none rfl
    rw [brace, space]
    exact occurrencesFrom_found (offset + 2) rfl
  keyword_eq := rfl

theorem Leads.indent {lead keyword : Text} {kind : Kind} {column : Nat}
    (leads : Leads lead kind column keyword) {margin : Text} (isMargin : Source.IsMargin margin) :
    Leads (margin ++ lead) kind (Text.byteSize margin + column) keyword where
  finds offset text := by
    rw [List.append_assoc, occurrencesFrom_margin isMargin, leads.finds, Text.byteSize_append]
    simp only [Nat.add_assoc]
  keyword_eq := leads.keyword_eq

/-- A line that opens a block holds one header, with its condition, and the
block is no statement on the line. -/
theorem headers_conditionLine {lead keyword : Text} {kind : Kind} {column : Nat}
    (leads : Leads lead kind column keyword) {text masked : Text}
    (nested : Source.nested '(' ')' 0 masked = true) (headerless : occurrences masked = [])
    (sameSize : Text.byteSize masked = Text.byteSize text) :
    ∃ header : Header, headers (conditionLine lead masked) (conditionLine lead text) = [header] ∧
      header.column = column ∧ header.kind = kind ∧
      header.condition = keyword ++ " (".toList ++ Text.trim text ++ [')'] ∧
      header.isInline (conditionLine lead masked) = false := by
  have alone : occurrencesFrom (Text.byteSize lead + 1) false 0 (masked ++ [')', ' ', '{']) = [] :=
    occurrencesFrom_stop (occurrencesFrom_eq_nil headerless _)
  have found : occurrences (conditionLine lead masked) =
      [{ kind, column, stop := Text.byteSize lead + 1 }] := by
    rw [conditionLine, occurrences, leads.finds, Nat.zero_add, Nat.zero_add, alone]
  have condition : readCondition? (conditionLine lead masked) (conditionLine lead text)
      (Text.byteSize lead + 1 - 1) =
        some (Text.trim text, Text.byteSize lead + 1 + Text.byteSize masked) :=
    readCondition?_nested lead [' ', '{'] nested sameSize
  have body : Text.dropBytes? (Text.byteSize lead + 1 + Text.byteSize masked + 1)
      (conditionLine lead masked) = some [' ', '{'] := by
    have parenthesis : Text.byteSize (lead ++ '(' :: (masked ++ [')'])) =
        Text.byteSize lead + 1 + Text.byteSize masked + 1 := by
      have opening : ('(' : Char).utf8Size = 1 := by decide
      have closing : (')' : Char).utf8Size = 1 := by decide
      simp only [Text.byteSize_append, Text.byteSize_cons, Text.byteSize_nil, opening, closing]
      omega
    have dropped := Text.dropBytes?_append (lead ++ '(' :: (masked ++ [')'])) [' ', '{']
    rw [parenthesis] at dropped
    simpa [conditionLine] using dropped
  refine ⟨_, by rw [headers, found]; rfl, ?_, ?_, ?_, ?_⟩
  all_goals simp only [Header.ofOccurrence, leads.keyword_eq, condition]
  simp only [Header.isInline, Option.bind_some, body]
  cases kind.isLabel <;> rfl

/-- A line with a label holds one header, with the label as its text. -/
theorem headers_label {margin : Text} (isMargin : Source.IsMargin margin) {masked text : Text}
    (colonless : ':' ∉ masked)
    (sole : (occurrences (margin ++ ("case ".toList ++ (masked ++ [':'])))).length = 1)
    (sameSize : Text.byteSize masked = Text.byteSize text) :
    ∃ header : Header,
      headers (margin ++ ("case ".toList ++ (masked ++ [':'])))
        (margin ++ ("case ".toList ++ (text ++ [':']))) = [header] ∧
      header.column = Text.byteSize margin ∧ header.kind = .caseLabel ∧
      header.condition = "case ".toList ++ (text ++ [':']) := by
  have finds : occurrences (margin ++ ("case ".toList ++ (masked ++ [':']))) =
      { kind := .caseLabel, column := Text.byteSize margin, stop := Text.byteSize margin + 4 } ::
        occurrencesFrom (Text.byteSize margin + 4) true 0 (' ' :: (masked ++ [':'])) := by
    rw [occurrences, occurrencesFrom_margin isMargin, Nat.zero_add]
    change occurrencesFrom _ false 0 ('c' :: ("as".toList ++ 'e' :: ' ' :: (masked ++ [':']))) = _
    exact occurrencesFrom_found _ rfl
  have found : occurrences (margin ++ ("case ".toList ++ (masked ++ [':']))) =
      [{ kind := .caseLabel, column := Text.byteSize margin,
         stop := Text.byteSize margin + 4 }] := by
    rw [finds, List.length_cons, Nat.succ_inj, List.length_eq_zero_iff] at sole
    rw [finds, sole]
  have label : readLabel (margin ++ ("case ".toList ++ (masked ++ [':'])))
      (margin ++ ("case ".toList ++ (text ++ [':']))) (Text.byteSize margin) =
        "case ".toList ++ (text ++ [':']) := by
    have absent : ':' ∉ 'c' :: ("ase ".toList ++ masked) := by simpa using colonless
    have equalSizes : Text.byteSize ("ase ".toList ++ masked) =
        Text.byteSize ("ase ".toList ++ text) := by
      rw [Text.byteSize_append, Text.byteSize_append, sameSize]
    have whole := readLabel_whole margin absent (by decide) equalSizes
    simpa using whole
  refine ⟨_, by rw [headers, found]; rfl, rfl, rfl, ?_⟩
  simp only [Header.ofOccurrence, Kind.conditionKeyword?, if_true, label]

end ChangeCoverage.Branch
