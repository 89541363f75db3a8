import ChangeCoverage.Proofs.Branch.HiddenText

/-!
The parenthesis that closes a condition.  It ends the first slice of the masked
line, from the opening parenthesis on, that has as many closing as opening ones;
every shorter slice has more opening ones, so that the depth is above zero
wherever a parenthesis is closed.  The condition is cut from the line itself.
-/

namespace ChangeCoverage.Branch

open Source (Hides LexState)

/-- Whether parentheses at a depth are closed by a text, and not before its end. -/
def Closes (depth : Nat) (slice : Text) : Prop :=
  depth + slice.count '(' = slice.count ')' ∧
    ∀ shorter, shorter <+: slice → shorter ≠ slice →
      shorter.count ')' < depth + shorter.count '('

def depthBehind (depth : Nat) (character : Char) : Nat :=
  if character = '(' then depth + 1 else if character = ')' then depth - 1 else depth

section Depth

variable {depth offset : Nat} {slice later : Text} {character : Char}

theorem closes_zero_iff : Closes 0 slice ↔ slice = [] := by
  constructor
  · intro closes
    by_contra filled
    have started := closes.2 [] List.nil_prefix (Ne.symm filled)
    exact absurd started (Nat.lt_irrefl 0)
  · rintro rfl
    refine ⟨rfl, ?_⟩
    intro shorter within unequal
    exact absurd (List.prefix_nil.mp within) unequal

/-- Passing a character moves it from the text to the depth. -/
theorem depthBehind_count (positive : 0 < depth) (character : Char) (later : Text) :
    depthBehind depth character + later.count '(' + (character :: later).count ')' =
      depth + (character :: later).count '(' + later.count ')' := by
  unfold depthBehind
  by_cases opens : character = '('
  · subst opens
    rw [if_pos rfl, List.count_cons_self, List.count_cons_of_ne (by decide)]
    omega
  · by_cases closes : character = ')'
    · subst closes
      rw [if_neg (by decide), if_pos rfl, List.count_cons_self, List.count_cons_of_ne (by decide)]
      omega
    · rw [if_neg opens, if_neg closes, List.count_cons_of_ne opens, List.count_cons_of_ne closes]

theorem closes_cons_iff :
    Closes depth (character :: later) ↔
      0 < depth ∧ Closes (depthBehind depth character) later := by
  constructor
  · rintro ⟨total, above⟩
    have positive : 0 < depth := above [] List.nil_prefix (List.cons_ne_nil _ _).symm
    refine ⟨positive, ?_, ?_⟩
    · have balance := depthBehind_count positive character later
      omega
    · intro shorter within unequal
      have passed := above (character :: shorter) (List.cons_prefix_cons.mpr ⟨rfl, within⟩)
        fun same => unequal (List.cons.inj same).2
      have balance := depthBehind_count positive character shorter
      omega
  · rintro ⟨positive, total, above⟩
    have balance := depthBehind_count positive character later
    refine ⟨by omega, ?_⟩
    intro shorter within unequal
    cases shorter with
    | nil => exact positive
    | cons first shorter =>
        obtain ⟨rfl, inLater⟩ := List.cons_prefix_cons.mp within
        have passed := above shorter inLater fun same => unequal (congrArg _ same)
        have balance := depthBehind_count positive first shorter
        omega

theorem Closes.ne_nil (positive : 0 < depth) (closes : Closes depth slice) : slice ≠ [] := by
  rintro rfl
  have unchanged : depth + 0 = 0 := closes.1
  omega

theorem closingFrom_cons (positive : 0 < depth) (character : Char) (later : Text) :
    closingFrom depth offset (character :: later) =
      if depthBehind depth character = 0 then some offset
      else closingFrom (depthBehind depth character) (offset + character.utf8Size) later := by
  rw [closingFrom, depthBehind]
  by_cases opens : character = '('
  · rw [if_pos opens, if_pos opens, if_neg (Nat.succ_ne_zero depth)]
  · rw [if_neg opens, if_neg opens]
    by_cases closes : character = ')'
    · rw [if_pos closes, if_pos closes]
    · rw [if_neg closes, if_neg closes, if_neg (Nat.ne_of_gt positive)]

/-- Only a parenthesis of one byte brings the depth back to zero. -/
theorem utf8Size_of_depthBehind (positive : 0 < depth) (closed : depthBehind depth character = 0) :
    character.utf8Size = 1 := by
  unfold depthBehind at closed
  split at closed
  next => omega
  next =>
    split at closed
    next closes =>
      rw [closes]
      decide
    next => omega

/-- The scan ends at the parenthesis that closes those open before the text. -/
theorem closingFrom_eq_some_iff {text : Text} {closing : Nat} (positive : 0 < depth) :
    closingFrom depth offset text = some closing ↔
      ∃ slice behind, text = slice ++ behind ∧ Closes depth slice ∧
        offset + Text.byteSize slice = closing + 1 := by
  induction text generalizing depth offset with
  | nil =>
      refine ⟨fun found => absurd found.symm (Option.some_ne_none closing), ?_⟩
      rintro ⟨slice, behind, textEq, closes, -⟩
      exact absurd (List.append_eq_nil_iff.mp textEq.symm).1 (closes.ne_nil positive)
  | cons character rest inductionHypothesis =>
      rw [closingFrom_cons positive]
      by_cases closed : depthBehind depth character = 0
      · have size := utf8Size_of_depthBehind positive closed
        rw [if_pos closed, Option.some.injEq]
        constructor
        · rintro rfl
          refine ⟨[character], rest, rfl, ?_, ?_⟩
          · rw [closes_cons_iff, closed]
            exact ⟨positive, closes_zero_iff.mpr rfl⟩
          · rw [Text.byteSize_cons, size, Text.byteSize_nil]
        · rintro ⟨slice, behind, textEq, closes, stopEq⟩
          cases slice with
          | nil => exact absurd rfl (closes.ne_nil positive)
          | cons first later =>
              obtain ⟨rfl, -⟩ := List.cons.inj textEq
              rw [closes_cons_iff, closed, closes_zero_iff] at closes
              rw [closes.2, Text.byteSize_cons, size, Text.byteSize_nil] at stopEq
              omega
      · rw [if_neg closed, inductionHypothesis (Nat.pos_of_ne_zero closed)]
        constructor
        · rintro ⟨slice, behind, rfl, closes, stopEq⟩
          refine ⟨character :: slice, behind, rfl, closes_cons_iff.mpr ⟨positive, closes⟩, ?_⟩
          rw [← stopEq, Text.byteSize_cons, Nat.add_assoc]
        · rintro ⟨slice, behind, textEq, closes, stopEq⟩
          cases slice with
          | nil => exact absurd rfl (closes.ne_nil positive)
          | cons first later =>
              obtain ⟨rfl, restEq⟩ := List.cons.inj textEq
              refine ⟨later, behind, restEq, (closes_cons_iff.mp closes).2, ?_⟩
              rw [← stopEq, Text.byteSize_cons, Nat.add_assoc]

end Depth

/-- The scan of `closingFrom`, unless a parenthesis is closed at depth zero. -/
def closingFrom? (depth offset : Nat) : Text → Option (Option Nat)
  | [] => some none
  | character :: rest =>
      if character = '(' then closingFrom? (depth + 1) (offset + character.utf8Size) rest
      else if character = ')' then
        if depth = 0 then none
        else if depth - 1 = 0 then some (some offset)
        else closingFrom? (depth - 1) (offset + character.utf8Size) rest
      else closingFrom? depth (offset + character.utf8Size) rest

theorem closingFrom?_eq_some {depth : Nat} (positive : 0 < depth) (offset : Nat) (text : Text) :
    closingFrom? depth offset text = some (closingFrom depth offset text) := by
  induction text generalizing depth offset with
  | nil => rfl
  | cons character rest inductionHypothesis =>
      rw [closingFrom?, closingFrom]
      by_cases opens : character = '('
      · rw [if_pos opens, if_pos opens]
        exact inductionHypothesis (Nat.succ_pos depth) _
      · rw [if_neg opens, if_neg opens]
        by_cases closes : character = ')'
        · rw [if_pos closes, if_pos closes, if_neg (Nat.ne_of_gt positive)]
          by_cases outermost : depth - 1 = 0
          · rw [if_pos outermost, if_pos outermost]
          · rw [if_neg outermost, if_neg outermost]
            exact inductionHypothesis (Nat.pos_of_ne_zero outermost) _
        · rw [if_neg closes, if_neg closes]
          exact inductionHypothesis positive _

/-- Whether the slice from one offset through another one is the first to have as
many closing as opening parentheses. -/
def ClosesAt (masked : Text) (opening closing : Nat) : Prop :=
  opening < closing ∧
    ∃ slice, Text.slice? opening (closing + 1) masked = some slice ∧
      slice.count '(' = slice.count ')' ∧
      ∀ shorter, shorter <+: slice → shorter ≠ [] → shorter ≠ slice →
        shorter.count ')' < shorter.count '('

section Condition

variable {masked rest : Text} {opening : Nat}

theorem closes_one_iff {later : Text} :
    Closes 1 later ↔
      ('(' :: later).count '(' = ('(' :: later).count ')' ∧
        ∀ shorter, shorter <+: '(' :: later → shorter ≠ [] → shorter ≠ '(' :: later →
          shorter.count ')' < shorter.count '(' := by
  have opened (text : Text) :
      ('(' :: text).count '(' = 1 + text.count '(' ∧ ('(' :: text).count ')' = text.count ')' := by
    rw [List.count_cons_self, List.count_cons_of_ne (by decide), Nat.add_comm]
    exact ⟨rfl, rfl⟩
  rw [Closes, (opened later).1, (opened later).2]
  apply and_congr Iff.rfl
  constructor
  · intro above shorter within filled unequal
    cases shorter with
    | nil => exact absurd rfl filled
    | cons first shorter =>
        obtain ⟨rfl, inLater⟩ := List.cons_prefix_cons.mp within
        rw [(opened shorter).1, (opened shorter).2]
        exact above shorter inLater fun same => unequal (congrArg _ same)
  · intro above shorter within unequal
    have passed := above ('(' :: shorter) (List.cons_prefix_cons.mpr ⟨rfl, within⟩)
      (List.cons_ne_nil _ _) fun same => unequal (List.cons.inj same).2
    rwa [(opened shorter).1, (opened shorter).2] at passed

/-- From an opening parenthesis the scan finds the one that closes it. -/
theorem closingFrom_eq_some_iff_closesAt {closing : Nat}
    (opens : Text.dropBytes? opening masked = some ('(' :: rest)) :
    closingFrom 0 opening ('(' :: rest) = some closing ↔ ClosesAt masked opening closing := by
  obtain ⟨front, rfl, rfl⟩ := Text.dropBytes?_eq_some_iff.mp opens
  have parenthesis : ('(' : Char).utf8Size = 1 := by decide
  rw [closingFrom, if_pos rfl, parenthesis, closingFrom_eq_some_iff (Nat.succ_pos 0)]
  constructor
  · rintro ⟨later, behind, rfl, closes, stopEq⟩
    have filled : 0 < Text.byteSize later := by
      cases later with
      | nil => exact absurd rfl (closes.ne_nil (Nat.succ_pos 0))
      | cons first others =>
          have positive := first.utf8Size_pos
          rw [Text.byteSize_cons]
          omega
    refine ⟨by omega, '(' :: later, ?_, closes_one_iff.mp closes⟩
    apply Text.slice?_eq_some_iff.mpr
    refine ⟨front, behind, rfl, rfl, ?_⟩
    rw [Text.byteSize_cons, parenthesis]
    omega
  · rintro ⟨later, slice, sliced, balance⟩
    -- A text is cut in one way at an offset, so the slice starts with the parenthesis.
    obtain ⟨otherFront, behind, whole, frontSize, stopEq⟩ := Text.slice?_eq_some_iff.mp sliced
    obtain ⟨rfl, restEq⟩ := Text.append_inj_of_byteSize whole frontSize.symm
    cases slice with
    | nil =>
        rw [Text.byteSize_nil] at stopEq
        omega
    | cons first slice =>
        obtain ⟨rfl, rfl⟩ := List.cons.inj restEq
        refine ⟨slice, behind, rfl, closes_one_iff.mpr balance, ?_⟩
        rw [← stopEq, Text.byteSize_cons, parenthesis]
        omega

theorem readCondition_of_closingFrom {raw : Text} (hides : Hides masked raw) {closing : Nat}
    (opens : Text.dropBytes? opening masked = some ('(' :: rest))
    (closes : closingFrom 0 opening ('(' :: rest) = some closing) :
    ∃ inner, Text.slice? (opening + 1) closing raw = some inner ∧
      readCondition masked raw opening = .ok (Text.trim inner, closing) := by
  obtain ⟨inner, sliced⟩ := slice?_closing hides opens closes
  refine ⟨inner, sliced, ?_⟩
  simp [readCondition, readCondition?, opens, hides.byteSize_eq, closes, sliced]

/-- A condition is read from a line exactly when its parenthesis is closed there, which
happens at one offset at most.  No parenthesis is closed at depth zero on the way. -/
theorem readCondition_maskLine {line : Text} {state : LexState}
    (opens : Text.dropBytes? opening (Source.maskLine line state).1 = some ('(' :: rest)) :
    (∀ closing, ClosesAt (Source.maskLine line state).1 opening closing →
        (∀ other, ClosesAt (Source.maskLine line state).1 opening other → other = closing) ∧
          ∃ inner, Text.slice? (opening + 1) closing line = some inner ∧
            readCondition (Source.maskLine line state).1 line opening =
              .ok (Text.trim inner, closing)) ∧
      ((∀ closing, ¬ClosesAt (Source.maskLine line state).1 opening closing) →
        readCondition (Source.maskLine line state).1 line opening =
          .error (.unbalancedParenthesis (Text.trim line))) ∧
      closingFrom? 0 opening ('(' :: rest) = some (closingFrom 0 opening ('(' :: rest)) := by
  refine ⟨?_, ?_, ?_⟩
  · intro closing closes
    have found := (closingFrom_eq_some_iff_closesAt opens).mpr closes
    refine ⟨?_, readCondition_of_closingFrom (Source.hides_maskLine line state) opens found⟩
    intro other otherCloses
    have otherFound := (closingFrom_eq_some_iff_closesAt opens).mpr otherCloses
    exact Option.some.inj (otherFound.symm.trans found)
  · intro unclosed
    have missed : closingFrom 0 opening ('(' :: rest) = none := by
      apply Option.eq_none_iff_forall_ne_some.mpr
      intro closing found
      exact unclosed closing ((closingFrom_eq_some_iff_closesAt opens).mp found)
    simp [readCondition, readCondition?, opens, missed]
  · rw [closingFrom?, closingFrom, if_pos rfl, if_pos rfl]
    exact closingFrom?_eq_some (Nat.succ_pos 0) _ rest

end Condition

/-- The parenthesis in a string is passed over. -/
theorem readCondition_maskLine_quoted :
    ClosesAt (Source.maskLine "if (f(\")\") && g) return;".toList .code).1 3 15 ∧
      readCondition (Source.maskLine "if (f(\")\") && g) return;".toList .code).1
          "if (f(\")\") && g) return;".toList 3 =
        .ok ("f(\")\") && g".toList, 15) := by
  have opens : Text.dropBytes? 3 (Source.maskLine "if (f(\")\") && g) return;".toList .code).1 =
      some ('(' :: "f(   ) && g) return;".toList) := by decide +kernel
  have closes := (closingFrom_eq_some_iff_closesAt opens).mp
    (show closingFrom 0 3 ('(' :: "f(   ) && g) return;".toList) = some 15 by decide +kernel)
  obtain ⟨inner, sliced, read⟩ := ((readCondition_maskLine opens).1 15 closes).2
  have innerEq : Text.slice? 4 15 "if (f(\")\") && g) return;".toList =
      some "f(\")\") && g".toList := by decide +kernel
  rw [innerEq] at sliced
  obtain rfl := Option.some.inj sliced
  exact ⟨closes, read⟩

end ChangeCoverage.Branch
