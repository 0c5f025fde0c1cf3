/-!
Places in a text: lines end at a newline, and columns count bytes of the encoded text.
-/

namespace ClassScript

/-- A place in a text; the first line and the first column are 1. -/
structure Position where
  line : Nat
  column : Nat
  deriving DecidableEq, Repr, Inhabited

namespace Position

def start : Position := { line := 1, column := 1 }

def after (p : Position) (c : Char) : Position :=
  if c = '\n' then { line := p.line + 1, column := 1 }
  else { p with column := p.column + c.utf8Size }

def past (p : Position) (cs : List Char) : Position :=
  cs.foldl after p

def right (p : Position) (bytes : Nat) : Position :=
  { p with column := p.column + bytes }

def text (p : Position) : String :=
  p.line.repr ++ ":" ++ p.column.repr

@[simp] theorem past_nil (p : Position) : p.past [] = p := rfl

@[simp] theorem past_cons (p : Position) (c : Char) (cs : List Char) :
    p.past (c :: cs) = (p.after c).past cs := rfl

theorem past_append (p : Position) (cs ds : List Char) :
    p.past (cs ++ ds) = (p.past cs).past ds := by
  simp [past]

end Position

structure Located (α : Type) where
  value : α
  position : Position

end ClassScript
