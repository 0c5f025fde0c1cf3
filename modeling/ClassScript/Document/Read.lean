import ClassScript.Document

/-!
Documents read from JSON text. Naturals are written with digits alone; every other number is a
binary64 value. A source that is not exactly one document is refused.
-/

set_option autoImplicit false

namespace ClassScript.Document

def skipBlanks (source : List Char) : List Char :=
  source.dropWhile fun c => c == ' ' || c == '\t' || c == '\n' || c == '\r'

def isDecimalDigit (c : Char) : Bool :=
  '0' ≤ c && c ≤ '9'

def hexDigit? (c : Char) : Option Nat :=
  if isDecimalDigit c then some (c.toNat - '0'.toNat)
  else if 'a' ≤ c && c ≤ 'f' then some (c.toNat - 'a'.toNat + 10)
  else if 'A' ≤ c && c ≤ 'F' then some (c.toNat - 'A'.toNat + 10)
  else none

def hexUnit? : List Char → Option (Nat × List Char)
  | a :: b :: c :: d :: rest => do
    let a ← hexDigit? a
    let b ← hexDigit? b
    let c ← hexDigit? c
    let d ← hexDigit? d
    pure (((a * 16 + b) * 16 + c) * 16 + d, rest)
  | _ => none

/-- The character after `\u`, written as one unit or as two that belong together. -/
def numberedChar? (source : List Char) : Option (Char × List Char) := do
  let (unit, rest) ← hexUnit? source
  if 0xD800 ≤ unit && unit < 0xDC00 then
    match rest with
    | '\\' :: 'u' :: rest =>
      let (second, rest) ← hexUnit? rest
      if 0xDC00 ≤ second && second < 0xE000 then
        pure (Char.ofNat (0x10000 + (unit - 0xD800) * 0x400 + (second - 0xDC00)), rest)
      else none
    | _ => none
  else if 0xDC00 ≤ unit && unit < 0xE000 then none
  else pure (Char.ofNat unit, rest)

def shortEscape? : Char → Option Char
  | '"' => some '"'
  | '\\' => some '\\'
  | '/' => some '/'
  | 'b' => some '\x08'
  | 'f' => some '\x0c'
  | 'n' => some '\n'
  | 'r' => some '\r'
  | 't' => some '\t'
  | _ => none

/-- The rest of a string after its opening quote, and what follows its closing quote. -/
def stringRest? : Nat → List Char → List Char → Option (String × List Char)
  | 0, _, _ => none
  | _ + 1, _, [] => none
  | bound + 1, done, c :: rest =>
    if c = '"' then some (String.ofList done.reverse, rest)
    else if c = '\\' then
      match rest with
      | 'u' :: rest => do
        let (value, rest) ← numberedChar? rest
        stringRest? bound (value :: done) rest
      | e :: rest => do
        let value ← shortEscape? e
        stringRest? bound (value :: done) rest
      | [] => none
    else if c.toNat < 0x20 then none
    else stringRest? bound (c :: done) rest

def digitsValue (digits : List Char) : Nat :=
  digits.foldl (fun n c => 10 * n + (c.toNat - '0'.toNat)) 0

/-- The digits before the point: a single zero, or digits that begin with no zero. -/
def wholeDigits? (source : List Char) : Option (List Char × List Char) :=
  match source.takeWhile isDecimalDigit, source.dropWhile isDecimalDigit with
  | [], _ => none
  | '0' :: _ :: _, _ => none
  | digits, rest => some (digits, rest)

def fractionDigits? : List Char → Option (List Char × List Char)
  | '.' :: rest =>
    match rest.takeWhile isDecimalDigit with
    | [] => none
    | digits => some (digits, rest.dropWhile isDecimalDigit)
  | source => some ([], source)

def exponent? : List Char → Option (Option Int × List Char)
  | c :: rest =>
    if c = 'e' || c = 'E' then
      let (negative, rest) := match rest with
        | '-' :: rest => (true, rest)
        | '+' :: rest => (false, rest)
        | rest => (false, rest)
      match rest.takeWhile isDecimalDigit with
      | [] => none
      | digits =>
        let magnitude := (digitsValue digits : Int)
        some (some (if negative then -magnitude else magnitude), rest.dropWhile isDecimalDigit)
    else some (none, c :: rest)
  | [] => some (none, [])

def decimalValue (negative : Bool) (digits : Nat) (exponent : Int) : Float :=
  let magnitude :=
    if 0 ≤ exponent then Float.ofScientific digits false exponent.toNat
    else Float.ofScientific digits true (-exponent).toNat
  if negative then -magnitude else magnitude

def number? (source : List Char) : Option (Document × List Char) := do
  let (negative, source) := match source with
    | '-' :: rest => (true, rest)
    | rest => (false, rest)
  let (whole, source) ← wholeDigits? source
  let (fraction, source) ← fractionDigits? source
  let (exponent, source) ← exponent? source
  if negative || !fraction.isEmpty || exponent.isSome then
    let digits := digitsValue (whole ++ fraction)
    let value := decimalValue negative digits (exponent.getD 0 - fraction.length)
    pure (.number value, source)
  else
    pure (.natural (digitsValue whole), source)

/-- What follows a word that the text has to begin with. -/
def word? (word : List Char) (source : List Char) : Option (List Char) :=
  if word.isPrefixOf source then some (source.drop word.length) else none

mutual

def value? : Nat → List Char → Option (Document × List Char)
  | 0, _ => none
  | bound + 1, source =>
    match skipBlanks source with
    | '"' :: rest => do
      let (value, rest) ← stringRest? (rest.length + 1) [] rest
      pure (.text value, rest)
    | '[' :: rest =>
      match skipBlanks rest with
      | ']' :: rest => some (.list [], rest)
      | rest => do
        let (items, rest) ← items? bound rest
        pure (.list items, rest)
    | '\x7b' :: rest =>
      match skipBlanks rest with
      | '\x7d' :: rest => some (.record [], rest)
      | rest => do
        let (fields, rest) ← fields? bound rest
        pure (.record fields, rest)
    | 'n' :: rest => do
      let rest ← word? ['u', 'l', 'l'] rest
      pure (.null, rest)
    | 't' :: rest => do
      let rest ← word? ['r', 'u', 'e'] rest
      pure (.boolean true, rest)
    | 'f' :: rest => do
      let rest ← word? ['a', 'l', 's', 'e'] rest
      pure (.boolean false, rest)
    | source => number? source

/-- The items of a list that is not empty, and what follows the closing bracket. -/
def items? : Nat → List Char → Option (List Document × List Char)
  | 0, _ => none
  | bound + 1, source => do
    let (first, rest) ← value? bound source
    match skipBlanks rest with
    | ',' :: rest =>
      let (items, rest) ← items? bound rest
      pure (first :: items, rest)
    | ']' :: rest => pure ([first], rest)
    | _ => none

/-- The fields of a record that is not empty, and what follows the closing brace. -/
def fields? : Nat → List Char → Option (List (String × Document) × List Char)
  | 0, _ => none
  | bound + 1, source =>
    match skipBlanks source with
    | '"' :: rest => do
      let (name, rest) ← stringRest? (rest.length + 1) [] rest
      match skipBlanks rest with
      | ':' :: rest =>
        let (value, rest) ← value? bound rest
        match skipBlanks rest with
        | ',' :: rest =>
          let (fields, rest) ← fields? bound rest
          pure ((name, value) :: fields, rest)
        | '\x7d' :: rest => pure ([(name, value)], rest)
        | _ => none
      | _ => none
    | _ => none

end

def read? (source : String) : Option Document := do
  let source := source.toList
  let (document, rest) ← value? (source.length + 1) source
  if (skipBlanks rest).isEmpty then pure document else none

def field? (document : Document) (name : String) : Option Document :=
  match document with
  | record fields => fields.lookup name
  | _ => none

end ClassScript.Document
