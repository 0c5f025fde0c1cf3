import ClassScript.Decimal.Layout

/-!
Documents of named fields, lists and scalars, and their text as JSON, on one line or indented.
-/

set_option autoImplicit false

namespace ClassScript

/-- A document; the fields of a record keep their order. -/
inductive Document where
  | null
  | boolean (value : Bool)
  | natural (value : Nat)
  | number (value : Float)
  | text (value : String)
  | list (items : List Document)
  | record (fields : List (String × Document))

namespace Document

/-- Numbers have at least one digit after the point, and an exponent mark from `1e+16` up and from
`1e-6` down; values that are no finite number have no text of their own. -/
def numberLayout : Decimal.Layout where
  tie := .toEven
  positional := fun leading => -5 ≤ leading && leading ≤ 15
  pointZero := true
  notANumber := "null"
  infinity := "null"
  negativeInfinity := "null"

def escapedChar (c : Char) : String :=
  match c with
  | '"' => "\\\""
  | '\\' => "\\\\"
  | '\x08' => "\\b"
  | '\x0c' => "\\f"
  | '\n' => "\\n"
  | '\r' => "\\r"
  | '\t' => "\\t"
  | _ =>
    if c.toNat < 0x20 then
      "\\u00" ++ String.ofList [Nat.digitChar (c.toNat / 16), Nat.digitChar (c.toNat % 16)]
    else c.toString

def stringText (s : String) : String :=
  "\"" ++ String.join (s.toList.map escapedChar) ++ "\""

mutual

def compact : Document → String
  | null => "null"
  | boolean value => if value then "true" else "false"
  | natural value => value.repr
  | number value => numberLayout.text (.ofFloat value)
  | text value => stringText value
  | list items => "[" ++ ",".intercalate (compactItems items) ++ "]"
  | record fields => "\x7b" ++ ",".intercalate (compactFields fields) ++ "\x7d"

def compactItems : List Document → List String
  | [] => []
  | item :: rest => compact item :: compactItems rest

def compactFields : List (String × Document) → List String
  | [] => []
  | (name, value) :: rest => (stringText name ++ ":" ++ compact value) :: compactFields rest

end

def indentation (level : Nat) : String :=
  "".pushn ' ' (2 * level)

/-- Lines between brackets, one level deeper than the brackets; nothing when there are none. -/
def bracketed (opening closing : String) (level : Nat) (lines : List String) : String :=
  if lines.isEmpty then opening ++ closing
  else
    let margin := "\n" ++ indentation (level + 1)
    opening ++ margin ++ ("," ++ margin).intercalate lines ++ "\n" ++ indentation level ++ closing

mutual

/-- The document with one item or field a line, as it stands at the given level. -/
def indented (level : Nat) : Document → String
  | list items => bracketed "[" "]" level (indentedItems (level + 1) items)
  | record fields => bracketed "\x7b" "\x7d" level (indentedFields (level + 1) fields)
  | null => compact null
  | boolean value => compact (boolean value)
  | natural value => compact (natural value)
  | number value => compact (number value)
  | text value => compact (text value)

def indentedItems (level : Nat) : List Document → List String
  | [] => []
  | item :: rest => indented level item :: indentedItems level rest

def indentedFields (level : Nat) : List (String × Document) → List String
  | [] => []
  | (name, value) :: rest =>
    (stringText name ++ ": " ++ indented level value) :: indentedFields level rest

end

def pretty (document : Document) : String :=
  document.indented 0

end Document

end ClassScript
