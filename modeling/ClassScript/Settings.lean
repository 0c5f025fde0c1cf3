import ClassScript.Document.Read

/-!
Settings of a session, read from a document: a record that names the limits it changes, or a list
that gives them in order.
-/

set_option autoImplicit false

namespace ClassScript

structure Settings where
  /-- How many calls may be under way at once. -/
  maxCallDepth : Nat := 128
  /-- The room for calls, in units of 2^20 bytes. -/
  stackSize : Nat := 64

inductive SettingsFault where
  /-- The text is no document that gives limits. -/
  | unreadable
  | maxCallDepthZero
  | stackSizeZero
  deriving DecidableEq

def SettingsFault.message : SettingsFault → String
  | unreadable => "expected an object with limits"
  | maxCallDepthZero => "max_call_depth must be at least 1"
  | stackSizeZero => "stack_size_mib must be at least 1"

namespace Settings

def limit? : Document → Option Nat
  | .natural n => if n < UInt64.size then some n else none
  | _ => none

def set? (settings : Settings) (name : String) (limit : Nat) : Option Settings :=
  if name = "max_call_depth" then some { settings with maxCallDepth := limit }
  else if name = "stack_size_mib" then some { settings with stackSize := limit }
  else none

/-- Set limits by name; no name may occur twice. -/
def setAll? (settings : Settings) : List (String × Document) → Option Settings
  | [] => some settings
  | (name, value) :: rest =>
    if (rest.map Prod.fst).contains name then none
    else
      match limit? value with
      | none => none
      | some limit => (settings.set? name limit).bind fun settings => settings.setAll? rest

/-- The limits that a document gives; the others keep their default. -/
def ofDocument? : Document → Option Settings
  | .record fields => setAll? {} fields
  | .list [] => some {}
  | .list [first] => do
    let maxCallDepth ← limit? first
    some { maxCallDepth }
  | .list [first, second] => do
    let maxCallDepth ← limit? first
    let stackSize ← limit? second
    some { maxCallDepth, stackSize }
  | _ => none

def validate (settings : Settings) : Except SettingsFault Settings :=
  if settings.maxCallDepth = 0 then .error .maxCallDepthZero
  else if settings.stackSize = 0 then .error .stackSizeZero
  else .ok settings

def read (text : String) : Except SettingsFault Settings :=
  match (Document.read? text).bind ofDocument? with
  | some settings => settings.validate
  | none => .error .unreadable

end Settings

end ClassScript
