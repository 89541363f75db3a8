import ChangeCoverage.Case.Basic
import ChangeCoverage.Proofs.Branch.Header

/-!
Programs with one construct on each line: nested types with methods, whose
bodies are plain lines, chains of conditional blocks and switches.  The regions
of a program, which are the lines of its branches, follow its structure alone.
-/

namespace ChangeCoverage.Program

open Source (ScopeEntry Declaration Margin maskLine braces nested)
open Branch (conditionLine elseIfLead occurrences)

/-- A line that neither declares, branches nor nests anything. -/
structure PlainLine where
  raw : Text
  ends : (maskLine raw .code).2.atLineEnd = .code
  braceless : braces (maskLine raw .code).1 = []
  headerless : occurrences (maskLine raw .code).1 = []
  undeclared : Declaration.find? (maskLine raw .code).1 true = none

/-- A line that declares a type or method and opens its block. -/
structure DeclarationLine (declaration : Declaration) where
  raw : Text
  /-- What stands before the brace, masked. -/
  front : Text
  masks : maskLine raw .code = (front ++ ['{'], .code)
  braceless : braces front = []
  headerless : occurrences (front ++ ['{']) = []
  declares : Declaration.find? (front ++ ['{']) true = some declaration

/-- What stands in the parentheses of a line that opens a block. -/
structure Condition (lead : Text) where
  margin : Margin
  text : Text
  masked : Text
  masks : maskLine (conditionLine (margin.val ++ lead) text) .code =
    (conditionLine (margin.val ++ lead) masked, .code)
  balanced : nested '(' ')' 0 masked = true
  braceless : braces masked = []
  headerless : occurrences masked = []
  undeclared : Declaration.find? (conditionLine (margin.val ++ lead) masked) true = none

def Condition.line {lead : Text} (condition : Condition lead) : Text :=
  conditionLine (condition.margin.val ++ lead) condition.text

def labelText (label : Text) : Text :=
  "case ".toList ++ (label ++ [':'])

/-- What stands between the keyword of a label and its colon. -/
structure Label where
  margin : Margin
  text : Text
  masked : Text
  masks : maskLine (margin.val ++ labelText text) .code = (margin.val ++ labelText masked, .code)
  colonless : ':' ∉ masked
  sole : (occurrences (margin.val ++ labelText masked)).length = 1
  undeclared : Declaration.find? (margin.val ++ labelText masked) true = none

def Label.line (label : Label) : Text :=
  label.margin.val ++ labelText label.text

def defaultLine (margin : Margin) : Text :=
  margin.val ++ "default:".toList

def elseLine (margin : Margin) : Text :=
  margin.val ++ '}' :: (" else ".toList ++ ['{'])

def closingLine (margin : Margin) : Text :=
  margin.val ++ ['}']

/-- What a piece of code is: lines of a block, which hold labels in a switch,
or the end of a conditional block with the blocks chained to it. -/
inductive Part where
  | body (inSwitch : Bool)
  | chain

/-- Code in the order of its lines: what a line opens, and what comes next. -/
inductive Code : Part → Type where
  | stop {inSwitch : Bool} : Code (.body inSwitch)
  | plain {inSwitch : Bool} (line : PlainLine) (next : Code (.body inSwitch)) :
      Code (.body inSwitch)
  | branch {inSwitch : Bool} (condition : Condition "if ".toList) (body : Code (.body false))
      (rest : Code .chain) (next : Code (.body inSwitch)) : Code (.body inSwitch)
  | switch {inSwitch : Bool} (subject : Condition "switch ".toList) (items : Code (.body true))
      (closing : Margin) (next : Code (.body inSwitch)) : Code (.body inSwitch)
  | case (label : Label) (next : Code (.body true)) : Code (.body true)
  | default (margin : Margin) (next : Code (.body true)) : Code (.body true)
  | close (closing : Margin) : Code .chain
  | elseIf (condition : Condition elseIfLead) (body : Code (.body false))
      (rest : Code .chain) : Code .chain
  | otherwise (margin : Margin) (body : Code (.body false)) (closing : Margin) : Code .chain

inductive Members : Bool → Type where
  | stop {insideType : Bool} : Members insideType
  | plain {insideType : Bool} (line : PlainLine) (next : Members insideType) :
      Members insideType
  | type {insideType : Bool} {name : Text} (line : DeclarationLine (.type name))
      (inner : Members true) (closing : Margin) (next : Members insideType) :
      Members insideType
  | method {name : Text} (line : DeclarationLine (.method name)) (body : Code (.body false))
      (closing : Margin) (next : Members true) : Members true

namespace Code

def lines : {part : Part} → Code part → List Text
  | _, stop => []
  | _, plain line next => line.raw :: next.lines
  | _, branch condition body rest next =>
      condition.line :: (body.lines ++ (rest.lines ++ next.lines))
  | _, switch subject items closing next =>
      subject.line :: (items.lines ++ closingLine closing :: next.lines)
  | _, case label next => label.line :: next.lines
  | _, default margin next => defaultLine margin :: next.lines
  | _, close closing => [closingLine closing]
  | _, elseIf condition body rest => condition.line :: (body.lines ++ rest.lines)
  | _, otherwise margin body closing =>
      elseLine margin :: (body.lines ++ [closingLine closing])

/-- Whether the braces in all labels close each other. -/
def LabelsNested : {part : Part} → Code part → Prop
  | _, stop => True
  | _, plain _ next => next.LabelsNested
  | _, branch _ body rest next => body.LabelsNested ∧ rest.LabelsNested ∧ next.LabelsNested
  | _, switch _ items _ next => items.LabelsNested ∧ next.LabelsNested
  | _, case label next => nested '{' '}' 0 label.masked = true ∧ next.LabelsNested
  | _, default _ next => next.LabelsNested
  | _, close _ => True
  | _, elseIf _ body rest => body.LabelsNested ∧ rest.LabelsNested
  | _, otherwise _ body _ => body.LabelsNested

end Code

/-- The lines of a branch, and the outcomes of it that are to be tested. -/
structure Region where
  scope : ScopeEntry
  outcomes : List Text
  first : Nat
  last : Nat
  deriving DecidableEq

namespace Region

def Touched (region : Region) (changed : List Nat) : Prop :=
  ∃ line ∈ changed, region.first ≤ line ∧ line ≤ region.last

instance (region : Region) (changed : List Nat) : Decidable (region.Touched changed) :=
  inferInstanceAs (Decidable (∃ line ∈ changed, region.first ≤ line ∧ line ≤ region.last))

def cases (region : Region) : List Case :=
  region.outcomes.map fun condition => { scope := region.scope, condition }

end Region

def headerText (keyword condition : Text) : Text :=
  keyword ++ " (".toList ++ Text.trim condition ++ [')']

def bothOutcomes (header : Text) : List Text :=
  [header ++ " → true".toList, header ++ " → false".toList]

namespace Code

/-- How many lines a label in front of some code of its switch reaches: up to
the next label, or through the end of the switch. -/
def reach : {part : Part} → Code part → Nat
  | _, plain _ next => next.reach + 1
  | _, branch _ body rest next => next.reach + (1 + body.lines.length + rest.lines.length)
  | _, switch _ items _ next => next.reach + (1 + items.lines.length + 1)
  | _, case _ _ => 0
  | _, default _ _ => 0
  | _, _ => 1

/-- The regions of code that starts at a line.  A block reaches from its header
through the line of its closing brace. -/
def regions (scope : ScopeEntry) : {part : Part} → Nat → Code part → List Region
  | _, _, stop => []
  | _, line, plain _ next => next.regions scope (line + 1)
  | _, line, branch condition body rest next =>
      { scope, outcomes := bothOutcomes (headerText "if".toList condition.text),
        first := line, last := line + 1 + body.lines.length } ::
      (body.regions scope (line + 1) ++
        (rest.regions scope (line + 1 + body.lines.length) ++
          next.regions scope (line + 1 + body.lines.length + rest.lines.length)))
  | _, line, switch subject items _ next =>
      { scope, outcomes := [headerText "switch".toList subject.text],
        first := line, last := line + 1 + items.lines.length } ::
      (items.regions scope (line + 1) ++
        next.regions scope (line + 1 + items.lines.length + 1))
  | _, line, case label next =>
      { scope, outcomes := [labelText label.text], first := line, last := line + next.reach } ::
      next.regions scope (line + 1)
  | _, line, default _ next =>
      { scope, outcomes := ["default:".toList], first := line, last := line + next.reach } ::
      next.regions scope (line + 1)
  | _, _, close _ => []
  | _, line, elseIf condition body rest =>
      { scope, outcomes := bothOutcomes (headerText "else if".toList condition.text),
        first := line, last := line + 1 + body.lines.length } ::
      (body.regions scope (line + 1) ++ rest.regions scope (line + 1 + body.lines.length))
  | _, line, otherwise _ body _ =>
      { scope, outcomes := [], first := line, last := line + 1 + body.lines.length } ::
      body.regions scope (line + 1)

end Code

namespace Members

def lines : {insideType : Bool} → Members insideType → List Text
  | _, stop => []
  | _, plain line next => line.raw :: next.lines
  | _, type line inner closing next =>
      line.raw :: (inner.lines ++ closingLine closing :: next.lines)
  | _, method line body closing next =>
      line.raw :: (body.lines ++ closingLine closing :: next.lines)

/-- Whether the braces in all labels close each other. -/
def LabelsNested : {insideType : Bool} → Members insideType → Prop
  | _, stop => True
  | _, plain _ next => next.LabelsNested
  | _, type _ inner _ next => inner.LabelsNested ∧ next.LabelsNested
  | _, method _ body _ next => body.LabelsNested ∧ next.LabelsNested

/-- The regions of members that start at a line, named by the innermost type
and method around them. -/
def regions (scope : ScopeEntry) : {insideType : Bool} → Nat → Members insideType → List Region
  | _, _, stop => []
  | _, line, plain _ next => next.regions scope (line + 1)
  | _, line, @type _ name _ inner _ next =>
      inner.regions { typeName := some name, methodName := none } (line + 1) ++
        next.regions scope (line + 1 + inner.lines.length + 1)
  | _, line, @method name _ body _ next =>
      body.regions { scope with methodName := some name } (line + 1) ++
        next.regions scope (line + 1 + body.lines.length + 1)

end Members

end ChangeCoverage.Program
