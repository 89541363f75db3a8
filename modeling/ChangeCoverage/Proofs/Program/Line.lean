import ChangeCoverage.Proofs.Branch.Marks
import ChangeCoverage.Proofs.Program.Syntax

/-!
What the lines of a program hold: at most one header, with braces before and
behind it.
-/

namespace ChangeCoverage.Program

open Source (ScopeEntry Brace Margin maskLine braces)
open Branch (Kind Header SourceLine Mark conditionLine elseIfLead headers eventsFrom lineMarks)

def sourceLine (number : Nat) (scope : ScopeEntry) (raw : Text) : SourceLine :=
  { number, raw, masked := (maskLine raw .code).1, scope }

structure Holds (raw : Text) (before : List Brace) (header? : Option (Kind × Text))
    (after : List Brace) : Prop where
  ends : (maskLine raw .code).2.atLineEnd = .code
  braces_eq : braces (maskLine raw .code).1 = before ++ after
  texts : (headers (maskLine raw .code).1 raw).map (fun header => (header.kind, header.condition)) =
    header?.toList
  blocks : ∀ header ∈ headers (maskLine raw .code).1 raw,
    header.isInline (maskLine raw .code).1 = false
  events : eventsFrom 0 (maskLine raw .code).1 (headers (maskLine raw .code).1 raw) =
    before.map .brace ++ (headers (maskLine raw .code).1 raw).map .header ++ after.map .brace

variable {raw : Text} {before after : List Brace}

theorem Holds.of_headerless {masked : Text} (masks : maskLine raw .code = (masked, .code))
    (headerless : Branch.occurrences masked = []) (afterEq : braces masked = after) :
    Holds raw [] none after := by
  have none : headers masked raw = [] := by rw [headers, headerless, List.map_nil]
  refine ⟨?_, ?_, ?_, ?_, ?_⟩
  all_goals rw [masks]
  · rfl
  · exact afterEq
  · rw [none]
    rfl
  · rw [none]
    exact fun header membership => absurd membership List.not_mem_nil
  · rw [none, eventsFrom, afterEq]
    rfl

theorem eventsFrom_single (front rest : Text) {header : Header}
    (column : header.column = Text.byteSize front) :
    eventsFrom 0 (front ++ rest) [header] =
      (braces front).map .brace ++ [.header header] ++ (braces rest).map .brace := by
  simp [eventsFrom, column, Text.splitAt?_append]

theorem Holds.of_header {front rest : Text} {header : Header}
    (masks : maskLine raw .code = (front ++ rest, .code))
    (found : headers (front ++ rest) raw = [header])
    (column : header.column = Text.byteSize front)
    (block : header.isInline (front ++ rest) = false) (beforeEq : braces front = before)
    (afterEq : braces rest = after) :
    Holds raw before (some (header.kind, header.condition)) after := by
  subst beforeEq afterEq
  refine ⟨?_, ?_, ?_, ?_, ?_⟩
  all_goals rw [masks]
  · rfl
  · exact Source.braces_append front rest
  · rw [found]
    rfl
  · rw [found]
    intro other membership
    rw [List.mem_singleton.mp membership]
    exact block
  · rw [found]
    exact eventsFrom_single front rest column

/-- A line passes its braces, with its header between them if it is hot. -/
theorem Holds.lineMarks_eq {header? : Option (Kind × Text)}
    (holds : Holds raw before header? after) (hot : Bool) (number : Nat) (scope : ScopeEntry) :
    lineMarks hot (sourceLine number scope raw) =
      before.map (.brace number) ++
        (if hot then (headers (maskLine raw .code).1 raw).map
          (.header (sourceLine number scope raw)) else []) ++
        after.map (.brace number) ++ [.lineEnd number] := by
  cases hot with
  | true =>
      have placed := Branch.placed_headers (maskLine raw .code).1 raw
      have marks := Branch.map_mark_eventsFrom (sourceLine number scope raw) placed
      rw [holds.events] at marks
      simp only [lineMarks, if_true, sourceLine] at marks ⊢
      rw [← marks]
      simp [Function.comp_def, Branch.Event.mark]
  | false =>
      have placed := Branch.Placed.none 0 (maskLine raw .code).1
      have marks := Branch.map_mark_eventsFrom (sourceLine number scope raw) placed
      rw [eventsFrom, holds.braces_eq] at marks
      simp only [lineMarks, Bool.false_eq_true, if_false, sourceLine] at marks ⊢
      rw [← marks]
      simp [Function.comp_def, Branch.Event.mark]

theorem PlainLine.holds (line : PlainLine) : Holds line.raw [] none [] := by
  have none : headers (maskLine line.raw .code).1 line.raw = [] := by
    rw [headers, line.headerless, List.map_nil]
  refine ⟨line.ends, line.braceless, ?_, ?_, ?_⟩
  all_goals rw [none]
  · rfl
  · exact fun header membership => absurd membership List.not_mem_nil
  · rw [eventsFrom, line.braceless]
    rfl

theorem DeclarationLine.holds {declaration : Source.Declaration}
    (line : DeclarationLine declaration) : Holds line.raw [] none [.opening] := by
  have opening : braces (line.front ++ ['{']) = [.opening] := by
    rw [Source.braces_append, line.braceless]
    rfl
  exact .of_headerless line.masks line.headerless opening

theorem masks_margin (margin : Margin) {text : Text}
    (masks : maskLine text .code = (text, .code)) :
    maskLine (margin.val ++ text) .code = (margin.val ++ text, .code) := by
  rw [Source.maskLine_margin margin.property, masks]

theorem occurrences_margin (margin : Margin) (text : Text) :
    Branch.occurrences (margin.val ++ text) =
      Branch.occurrencesFrom (Text.byteSize margin.val) false 0 text := by
  rw [Branch.occurrences, Branch.occurrencesFrom_margin margin.property, Nat.zero_add]

theorem braces_behind (margin : Margin) (text : Text) :
    braces (margin.val ++ text) = braces text := by
  rw [Source.braces_append, Source.braces_margin margin.property, List.nil_append]

theorem holds_closingLine (margin : Margin) : Holds (closingLine margin) [] none [.closing] :=
  .of_headerless (masks_margin margin rfl) (occurrences_margin margin ['}'])
    (braces_behind margin ['}'])

theorem holds_elseLine (margin : Margin) :
    Holds (elseLine margin) [.closing] (some (.elseHeader, "else".toList)) [.opening] := by
  let front := margin.val ++ ['}', ' ']
  let rest := "else ".toList ++ ['{']
  have whole : elseLine margin = front ++ rest :=
    (List.append_assoc margin.val ['}', ' '] rest).symm
  have masks : maskLine (elseLine margin) .code = (front ++ rest, .code) := by
    rw [← whole]
    exact masks_margin margin rfl
  have size : Text.byteSize front = Text.byteSize margin.val + 2 := Text.byteSize_append _ _
  have occurs : Branch.occurrences (front ++ rest) =
      [{ kind := .elseHeader, column := Text.byteSize front,
         stop := Text.byteSize front + 4 }] := by
    rw [← whole, elseLine, occurrences_margin, size]
    rfl
  have found : headers (front ++ rest) (elseLine margin) =
      [{ column := Text.byteSize front, bodyStart := some (Text.byteSize front + 4),
         kind := .elseHeader, condition := "else".toList }] := by
    rw [headers, occurs]
    rfl
  have body : Text.dropBytes? (Text.byteSize front + 4) (front ++ rest) = some [' ', '{'] := by
    have dropped := Text.dropBytes?_append (front ++ "else".toList) [' ', '{']
    rw [Text.byteSize_append, List.append_assoc] at dropped
    exact dropped
  have block : Header.isInline (front ++ rest)
      { column := Text.byteSize front, bodyStart := some (Text.byteSize front + 4),
        kind := .elseHeader, condition := "else".toList } = false := by
    rw [Header.isInline, Option.bind_some, body]
    rfl
  exact .of_header masks found rfl block (braces_behind margin ['}', ' ']) rfl

theorem holds_defaultLine (margin : Margin) :
    Holds (defaultLine margin) [] (some (.defaultLabel, "default:".toList)) [] := by
  have occurs : Branch.occurrences (margin.val ++ "default:".toList) =
      [{ kind := .defaultLabel, column := Text.byteSize margin.val,
         stop := Text.byteSize margin.val + 8 }] := by
    rw [occurrences_margin]
    rfl
  have found : headers (margin.val ++ "default:".toList) (defaultLine margin) =
      [{ column := Text.byteSize margin.val, bodyStart := some (Text.byteSize margin.val + 8),
         kind := .defaultLabel, condition := "default:".toList }] := by
    rw [headers, occurs]
    rfl
  exact .of_header (masks_margin margin rfl) found rfl rfl
    (Source.braces_margin margin.property) rfl

theorem Condition.holds {lead keyword : Text} {kind : Kind} (front rest : Text)
    (leads : Branch.Leads lead kind (Text.byteSize front) keyword) (condition : Condition lead)
    (split : lead = front ++ rest) (afterEq : braces rest = []) :
    Holds condition.line (braces front)
      (some (kind, headerText keyword condition.text)) [.opening] := by
  let margin := condition.margin
  have sizes := Source.byteSize_maskLine condition.line .code
  rw [Condition.line, condition.masks] at sizes
  have sameSize : Text.byteSize condition.masked = Text.byteSize condition.text := by
    simp only [conditionLine, Text.byteSize_append, Text.byteSize_cons] at sizes
    omega
  obtain ⟨header, found, column, rfl, text, block⟩ :=
    Branch.headers_conditionLine (leads.indent margin.property) condition.balanced
      condition.headerless sameSize
  have whole (masked : Text) : conditionLine (margin.val ++ lead) masked =
      margin.val ++ front ++ (rest ++ '(' :: (masked ++ [')', ' ', '{'])) := by
    rw [conditionLine, split]
    simp only [List.append_assoc]
  have opening : braces (rest ++ '(' :: (condition.masked ++ [')', ' ', '{'])) = [.opening] := by
    have middle : braces ('(' :: (condition.masked ++ [')', ' ', '{'])) =
        braces (condition.masked ++ [')', ' ', '{']) := rfl
    rw [Source.braces_append, afterEq, middle, Source.braces_append, condition.braceless]
    rfl
  have masks := condition.masks
  rw [whole condition.masked] at masks found block
  have start : header.column = Text.byteSize (margin.val ++ front) := by
    rw [column, Text.byteSize_append]
  have holds := Holds.of_header masks found start block (braces_behind margin front) opening
  rw [text] at holds
  exact holds

theorem Condition.holds_if (condition : Condition "if ".toList) :
    Holds condition.line [] (some (.ifHeader, headerText "if".toList condition.text))
      [.opening] :=
  condition.holds [] "if ".toList Branch.leads_if rfl rfl

theorem Condition.holds_switch (subject : Condition "switch ".toList) :
    Holds subject.line [] (some (.switchHeader, headerText "switch".toList subject.text))
      [.opening] :=
  subject.holds [] "switch ".toList Branch.leads_switch rfl rfl

theorem Condition.holds_elseIf (condition : Condition elseIfLead) :
    Holds condition.line [.closing]
      (some (.elseIfHeader, headerText "else if".toList condition.text)) [.opening] :=
  condition.holds ['}', ' '] "else if ".toList Branch.leads_elseIf rfl rfl

theorem Label.holds (label : Label) :
    Holds label.line [] (some (.caseLabel, labelText label.text)) (braces label.masked) := by
  have sizes := Source.byteSize_maskLine label.line .code
  rw [Label.line, label.masks] at sizes
  have sameSize : Text.byteSize label.masked = Text.byteSize label.text := by
    simp only [labelText, Text.byteSize_append] at sizes
    omega
  obtain ⟨header, found, column, kind, text⟩ :=
    Branch.headers_label label.margin.property label.colonless label.sole sameSize
  have block : header.isInline (label.margin.val ++ labelText label.masked) = false := by
    rw [Header.isInline, kind]
    rfl
  have inside : braces (labelText label.masked) = braces label.masked := by
    rw [labelText, Source.braces_append, Source.braces_append]
    exact List.append_nil _
  have holds := Holds.of_header label.masks found column block
    (Source.braces_margin label.margin.property) inside
  rw [kind, text] at holds
  exact holds

end ChangeCoverage.Program
