import ChangeCoverage.Text.Number

/-!
Rows of a view that shows the old file on the left and the new file on the
right, and their rendering as text.
-/

namespace ChangeCoverage.Alignment

inductive SideKind where
  | context
  | added
  | deleted
  /-- Nothing: only the other file has a line here. -/
  | placeholder
  deriving DecidableEq, Repr

structure Side where
  number : Option Nat
  content : Text
  kind : SideKind
  deriving DecidableEq, Repr

structure Row where
  left : Side
  right : Side
  deriving DecidableEq, Repr

namespace Side

def ofLine (kind : SideKind) (number : Nat) (content : Text) : Side :=
  { number := some number, content, kind }

def empty : Side :=
  { number := none, content := [], kind := .placeholder }

end Side

namespace Row

def ofSides? : Option Side → Option Side → Option Row
  | none, none => none
  | left, right => some { left := left.getD .empty, right := right.getD .empty }

/-- Whether the row shows anything but an unchanged line on both sides. -/
def isChange (row : Row) : Bool :=
  row.left.kind ≠ .context || row.right.kind ≠ .context

end Row

def zipSides : List (Option Side) → List (Option Side) → List Row
  | [], rights => rights.filterMap (Row.ofSides? none)
  | left :: lefts, rights =>
      (Row.ofSides? left rights.head?.join).toList ++ zipSides lefts rights.tail

def SideKind.marker : SideKind → Char
  | added => '+'
  | deleted => '-'
  | context => ' '
  | placeholder => ' '

def expandTabs (text : Text) : Text :=
  text.flatMap fun character => if character = '\t' then List.replicate 4 ' ' else [character]

/-- The greatest width that text can be filled to. -/
def widestColumn : Nat := 65535

/-- A side as text: its number, its mark, and its content cut and filled to the
column width. -/
def Side.render? (width : Nat) (side : Side) : Option Text :=
  if widestColumn < width then none
  else
    let number := (side.number.map Text.decimal).getD []
    let content := (expandTabs side.content).take width
    some (Text.padLeft 5 number ++ ' ' :: side.kind.marker :: Text.padRight width content)

def Row.render? (width : Nat) (row : Row) : Option Text :=
  (row.left.render? width).bind fun left =>
    (row.right.render? width).map fun right =>
      left ++ " | ".toList ++ Text.trimEnd right

end ChangeCoverage.Alignment
