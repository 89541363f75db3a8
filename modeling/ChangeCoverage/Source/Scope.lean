import ChangeCoverage.Source.Declaration
import ChangeCoverage.Source.Mask

/-!
Scopes of source lines.  A declaration opens a scope at the brace depth of its
line; a closing brace that returns to that depth ends it.
-/

namespace ChangeCoverage.Source

structure ScopeEntry where
  typeName : Option Text := none
  methodName : Option Text := none
  deriving DecidableEq, Repr

structure ScopeFrame where
  declaration : Declaration
  /-- The brace depth before the braces of the declaring line. -/
  entryDepth : Nat
  /-- What lines belonged to before the scope opened. -/
  previous : ScopeEntry
  deriving DecidableEq, Repr

structure ScopeState where
  lexState : LexState := .code
  depth : Nat := 0
  stack : List ScopeFrame := []
  /-- What the next line belongs to, unless it declares something. -/
  current : ScopeEntry := {}
  deriving DecidableEq, Repr

def ScopeEntry.enter (entry : ScopeEntry) : Declaration → ScopeEntry
  | .type name => { typeName := some name, methodName := none }
  | .method name => { entry with methodName := some name }

namespace ScopeState

def openScope (state : ScopeState) (declaration : Declaration) : ScopeState :=
  { state with
    stack :=
      { declaration, entryDepth := state.depth, previous := state.current } :: state.stack
    current := state.current.enter declaration }

def closeScope (state : ScopeState) : ScopeState :=
  match state.stack with
  | [] => state
  | frame :: outer => { state with stack := outer, current := frame.previous }

/-- Ends the innermost scopes that were opened at the present depth or deeper. -/
def closeDeeper (depth : Nat) : List ScopeFrame → ScopeEntry → List ScopeFrame × ScopeEntry
  | [], current => ([], current)
  | frame :: outer, current =>
      if depth ≤ frame.entryDepth then closeDeeper depth outer frame.previous
      else (frame :: outer, current)

def passBrace (state : ScopeState) : Brace → ScopeState
  | .opening => { state with depth := state.depth + 1 }
  | .closing =>
      let depth := state.depth - 1
      let (stack, current) := closeDeeper depth state.stack state.current
      { state with depth, stack, current }

def endsStatement (masked : Text) : Bool :=
  (Text.trimEnd masked).getLast? = some ';'

/-- Takes one line into account, and says what it belongs to.  A declaration
that ends in a semicolon on its own line has no body. -/
def advance (state : ScopeState) (line : Text) : ScopeState × ScopeEntry :=
  let (masked, reached) := maskLine line state.lexState
  let entered := { state with lexState := reached.atLineEnd }
  match Declaration.find? masked state.current.typeName.isSome with
  | some declaration =>
      let opened := entered.openScope declaration
      let passed := (braces masked).foldl passBrace opened
      let bodiless := endsStatement masked && passed.stack.length = opened.stack.length
      (if bodiless then passed.closeScope else passed, opened.current)
  | none =>
      let passed := (braces masked).foldl passBrace entered
      (passed, passed.current)

/-- Takes lines into account, with the state and the entry after each. -/
def trace (state : ScopeState) : List Text → List (ScopeState × ScopeEntry)
  | [] => []
  | line :: rest =>
      let (next, entry) := state.advance line
      (next, entry) :: trace next rest

end ScopeState

def scopeEntries (fileLines : List Text) : List ScopeEntry :=
  (ScopeState.trace {} fileLines).map (·.2)

end ChangeCoverage.Source
