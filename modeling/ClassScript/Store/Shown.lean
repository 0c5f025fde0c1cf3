import ClassScript.Store
import ClassScript.Text.Quoted

/-!
How values are shown. Containers are written out with their contents, strings inside them between
quotes; a container that is met while it is being written out is only hinted at.
-/

set_option autoImplicit false

namespace ClassScript.Store

inductive Container where
  | array (ref : ArrayRef)
  | map (ref : MapRef)
  deriving DecidableEq

def containerCount (store : Store) : Nat :=
  store.arrays.size + store.maps.size

/-- A value that is no container; strings between quotes if they stand inside one. -/
def shownScalar (store : Store) (inside : Bool) : Value → String
  | .nil => "nil"
  | .boolean value => if value then "true" else "false"
  | .number value => Number.shown value
  | .text value => if inside then Text.quoted value else value
  | .builtin which => "<native fn " ++ which.name ++ ">"
  | .function ref =>
    match store.functions[ref]? with
    | some closure => "<fn " ++ closure.decl.name.name ++ ">"
    | none => "<fn>"
  | .classObject ref =>
    match store.classes[ref]? with
    | some found => "<class " ++ found.name ++ ">"
    | none => "<class>"
  | .object ref =>
    match store.classOf? ref with
    | some found => "<" ++ found.name ++ " instance>"
    | none => "<instance>"
  | .array _ => "[...]"
  | .map _ => "\x7b...\x7d"

/-- A value, given the containers that are being written out. Each of them is one of the store's,
and none is written out inside itself, so their number bounds the nesting. -/
def shownWithin (store : Store) : Nat → List Container → Bool → Value → String
  | 0, _, inside, value => store.shownScalar inside value
  | bound + 1, path, inside, value =>
    match value with
    | .array ref =>
      if .array ref ∈ path then "[...]"
      else
        let texts := (store.items ref).toList.map
          (store.shownWithin bound (.array ref :: path) true)
        "[" ++ ", ".intercalate texts ++ "]"
    | .map ref =>
      if .map ref ∈ path then "\x7b...\x7d"
      else
        let texts := (store.entries ref).entries.map fun entry =>
          Text.quoted entry.1 ++ ": " ++ store.shownWithin bound (.map ref :: path) true entry.2
        "\x7b" ++ ", ".intercalate texts ++ "\x7d"
    | other => store.shownScalar inside other

def shown (store : Store) (value : Value) : String :=
  store.shownWithin (store.containerCount + 1) [] false value

end ClassScript.Store
