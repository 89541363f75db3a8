import ChangeCoverage.Branch.Extract

/-!
The extents of branches, without a stack.  A file is read as a sequence of
marks, and each header is followed through the marks behind it until one of
them ends its branch.
-/

namespace ChangeCoverage.Branch

structure SourceLine where
  number : Nat
  raw : Text
  masked : Text
  scope : Source.ScopeEntry

def sourceLines (number : Nat) (lexState : Source.LexState) :
    List Text → List Source.ScopeEntry → List SourceLine
  | [], _ => []
  | raw :: rest, scopes =>
      let (masked, reached) := Source.maskLine raw lexState
      { number, raw, masked, scope := scopes.head?.getD {} } ::
        sourceLines (number + 1) reached.atLineEnd rest scopes.tail

inductive Mark where
  | brace (line : Nat) (brace : Source.Brace)
  | header (line : SourceLine) (header : Header)
  | lineEnd (line : Nat)

/-- The marks of the rest of a line that starts at an offset. -/
def marksFrom (line : SourceLine) (found : List Header) (offset : Nat) : Text → List Mark
  | [] => []
  | character :: rest =>
      (found.filter (·.column = offset)).map (.header line) ++
        (Source.braces [character]).map (.brace line.number) ++
        marksFrom line found (offset + character.utf8Size) rest

/-- Whether a line number of the changed ones has this scope. -/
def isHot (scopes : List Source.ScopeEntry) (changed : List Nat) (scope : Source.ScopeEntry) :
    Bool :=
  changed.any fun number => number ≠ 0 && scopes[number - 1]? = some scope

/-- The marks of a line.  Its headers count if it is hot. -/
def lineMarks (hot : Bool) (line : SourceLine) : List Mark :=
  marksFrom line (if hot then headers line.masked line.raw else []) 0 line.masked ++
    [.lineEnd line.number]

def fileMarks (fileLines : List Text) (scopes : List Source.ScopeEntry) (changed : List Nat) :
    List Mark :=
  (sourceLines 1 .code fileLines scopes).flatMap fun line =>
    lineMarks (isHot scopes changed line.scope) line

def leaves (depth : Nat) : Source.Brace → Nat
  | .opening => depth + 1
  | .closing => depth - 1

/-- The last line of a branch, which the first mark that ends it decides: a
closing brace that leaves a lower depth, or for a block the depth of its header;
a label at that depth or a lower one; or the end of the line if the branch is a
statement on its header's line. -/
def lastLine (branch : Branch) (inline : Bool) (fileEnd depth : Nat) : List Mark → Nat
  | [] => fileEnd
  | .brace _ .opening :: later => lastLine branch inline fileEnd (depth + 1) later
  | .brace line .closing :: later =>
      if depth - 1 < branch.depth || (depth - 1 = branch.depth && !branch.kind.isLabel) then line
      else lastLine branch inline fileEnd (depth - 1) later
  | .header line header :: later =>
      if header.kind.isLabel && depth ≤ branch.depth then line.number - 1
      else lastLine branch inline fileEnd depth later
  | .lineEnd line :: later =>
      if inline then line else lastLine branch inline fileEnd depth later

def Header.branchAt (header : Header) (line : SourceLine) (depth : Nat) : Branch :=
  { scope := line.scope, kind := header.kind, condition := header.condition,
    startLine := line.number, depth }

structure Extent where
  branch : Branch
  last : Nat
  deriving DecidableEq, Repr

def Extent.touchedBy (extent : Extent) (changed : List Nat) : Bool :=
  touches changed extent.branch.startLine (max extent.branch.startLine extent.last)

def extentsFrom (fileEnd depth : Nat) : List Mark → List Extent
  | [] => []
  | .brace _ brace :: later => extentsFrom fileEnd (leaves depth brace) later
  | .header line header :: later =>
      let branch := header.branchAt line depth
      { branch, last := lastLine branch (header.isInline line.masked) fileEnd depth later } ::
        extentsFrom fileEnd depth later
  | .lineEnd _ :: later => extentsFrom fileEnd depth later

/-- The extents of the headers that count in a file. -/
def extents (fileLines : List Text) (scopes : List Source.ScopeEntry) (changed : List Nat) :
    List Extent :=
  extentsFrom fileLines.length 0 (fileMarks fileLines scopes changed)

end ChangeCoverage.Branch
