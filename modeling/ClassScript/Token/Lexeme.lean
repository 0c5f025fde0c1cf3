import ClassScript.Token

/-!
The pieces a text is cut into: blanks, comments, marks, words, number and string literals. Each
piece is taken from the front of a list of characters; the longest one that fits is taken.
-/

set_option autoImplicit false

namespace ClassScript

/-- Why a place in a text begins no token. -/
inductive LexicalFault where
  | unexpected (character : Char)
  /-- The bytes left of a character of which an invalid escape took the first. -/
  | brokenCharacter
  | unterminatedComment
  | unterminatedString
  /-- The byte after a backslash, as the character with that number. -/
  | invalidEscape (byte : Char)
  deriving DecidableEq, Repr

def LexicalFault.message : LexicalFault → String
  | unexpected c => "Unexpected character: " ++ c.toString
  | brokenCharacter => "Unexpected character: ?"
  | unterminatedComment => "Unterminated block comment."
  | unterminatedString => "Unterminated string."
  | invalidEscape byte => "Invalid escape sequence: \\" ++ byte.toString

namespace Lexeme

def isSpace (c : Char) : Bool :=
  c == ' ' || c == '\t' || c == '\r' || c == '\n'

def isDigit (c : Char) : Bool :=
  '0' ≤ c && c ≤ '9'

def isWordStart (c : Char) : Bool :=
  ('a' ≤ c && c ≤ 'z') || ('A' ≤ c && c ≤ 'Z') || c == '_'

def isWordPart (c : Char) : Bool :=
  isWordStart c || isDigit c

def doubleMark? : Char → Char → Option Terminal
  | '+', '=' => some .plusEqual
  | '-', '=' => some .minusEqual
  | '*', '=' => some .starEqual
  | '/', '=' => some .slashEqual
  | '!', '=' => some .bangEqual
  | '=', '=' => some .equalEqual
  | '<', '=' => some .lessEqual
  | '>', '=' => some .greaterEqual
  | '-', '>' => some .arrow
  | '&', '&' => some .andWord
  | '|', '|' => some .orWord
  | _, _ => none

def singleMark? : Char → Option Terminal
  | '(' => some .leftParen
  | ')' => some .rightParen
  | '{' => some .leftBrace
  | '}' => some .rightBrace
  | '[' => some .leftBracket
  | ']' => some .rightBracket
  | ',' => some .comma
  | '.' => some .dot
  | ';' => some .semicolon
  | ':' => some .colon
  | '%' => some .percent
  | '+' => some .plus
  | '-' => some .minus
  | '*' => some .star
  | '/' => some .slash
  | '!' => some .bang
  | '=' => some .equal
  | '<' => some .less
  | '>' => some .greater
  | _ => none

def keywords : List (String × Terminal) := [
  ("and", .andWord), ("break", .breakWord), ("class", .classWord), ("continue", .continueWord),
  ("else", .elseWord), ("extends", .extendsWord), ("false", .falseWord), ("fn", .fnWord),
  ("for", .forWord), ("if", .ifWord), ("let", .varWord), ("nil", .nilWord), ("or", .orWord),
  ("override", .overrideWord), ("print", .printWord), ("private", .privateWord),
  ("protected", .protectedWord), ("public", .publicWord), ("return", .returnWord),
  ("super", .superWord), ("this", .thisWord), ("true", .trueWord), ("var", .varWord),
  ("virtual", .virtualWord), ("while", .whileWord)]

def wordKind (word : String) : Token.Kind :=
  match keywords.lookup word with
  | some which => .terminal which
  | none => .identifier

def unescape? : Char → Option Char
  | 'n' => some '\n'
  | 't' => some '\t'
  | 'r' => some '\r'
  | '0' => some '\x00'
  | '\\' => some '\\'
  | '"' => some '"'
  | _ => none

/-- What follows the opening quote of a string. -/
inductive StringBody where
  /-- The text up to and with the closing quote, the characters it stands for, and what follows. -/
  | closed (raw value rest : List Char)
  /-- The text before the backslash, the character after it, and what follows. -/
  | invalidEscape (raw : List Char) (escaped : Char) (rest : List Char)
  | unterminated

/-- The same body with one more spelling in front. -/
def StringBody.cons (spelling : List Char) (value : Char) : StringBody → StringBody
  | closed raw values rest => closed (spelling ++ raw) (value :: values) rest
  | invalidEscape raw escaped rest => invalidEscape (spelling ++ raw) escaped rest
  | unterminated => unterminated

def stringBody : List Char → StringBody
  | [] => .unterminated
  | '"' :: rest => .closed ['"'] [] rest
  | '\\' :: [] => .unterminated
  | '\\' :: c :: rest =>
    match unescape? c with
    | some value => (stringBody rest).cons ['\\', c] value
    | none => .invalidEscape [] c rest
  | c :: rest => (stringBody rest).cons [c] c

theorem stringBody_eq_invalidEscape {text raw rest : List Char} {escaped : Char}
    (found : stringBody text = .invalidEscape raw escaped rest) :
    text = raw ++ '\\' :: escaped :: rest := by
  fun_induction stringBody text generalizing raw with
  | case1 => simp at found
  | case2 => simp at found
  | case3 => simp at found
  | case4 c after value known ih =>
    cases body : stringBody after with
    | invalidEscape inner other tail =>
      simp only [body, StringBody.cons, StringBody.invalidEscape.injEq] at found
      obtain ⟨rfl, rfl, rfl⟩ := found
      simp [ih body]
    | closed _ _ _ => simp [body, StringBody.cons] at found
    | unterminated => simp [body, StringBody.cons] at found
  | case5 c after unknown =>
    simp only [StringBody.invalidEscape.injEq] at found
    obtain ⟨rfl, rfl, rfl⟩ := found
    rfl
  | case6 c after _ _ _ ih =>
    cases body : stringBody after with
    | invalidEscape inner other tail =>
      simp only [body, StringBody.cons, StringBody.invalidEscape.injEq] at found
      obtain ⟨rfl, rfl, rfl⟩ := found
      simp [ih body]
    | closed _ _ _ => simp [body, StringBody.cons] at found
    | unterminated => simp [body, StringBody.cons] at found

/-- The rest of a comment up to and with its closing mark, and what follows. -/
def commentBody? : List Char → Option (List Char × List Char)
  | [] => none
  | '*' :: '/' :: rest => some (['*', '/'], rest)
  | c :: rest => (commentBody? rest).map fun (body, after) => (c :: body, after)

/-- The digits after a decimal point, when a digit follows the point. -/
def fractionDigits : List Char → List Char
  | '.' :: c :: rest => if isDigit c then c :: rest.takeWhile isDigit else []
  | _ => []

/-- What stands at the front of a text that is not empty. -/
inductive Front where
  /-- A blank or a comment of the given text. -/
  | blank (raw : List Char)
  /-- A token of the given text. -/
  | token (kind : Token.Kind) (raw : List Char)
  /-- A fault at the front; scanning goes on after the given text. -/
  | fault (cause : LexicalFault) (raw : List Char)
  /-- A string up to a backslash before a character that it does not go with. -/
  | escapeFault (raw : List Char) (escaped : Char)

def Front.raw : Front → List Char
  | blank raw | token _ raw | fault _ raw | escapeFault raw _ => raw

/-- A number literal that begins with the given digit. -/
def numberFront (first : Char) (rest : List Char) : Front :=
  let whole := first :: rest.takeWhile isDigit
  let fraction := fractionDigits (rest.dropWhile isDigit)
  let raw := if fraction.isEmpty then whole else whole ++ '.' :: fraction
  .token (.number (Number.ofDigits whole fraction)) raw

def wordFront (first : Char) (rest : List Char) : Front :=
  let word := first :: rest.takeWhile isWordPart
  .token (wordKind (String.ofList word)) word

def stringFront (rest : List Char) : Front :=
  match stringBody rest with
  | .closed raw value _ => .token (.string (String.ofList value)) ('"' :: raw)
  | .invalidEscape raw escaped _ => .escapeFault ('"' :: raw) escaped
  | .unterminated => .fault .unterminatedString ('"' :: rest)

def markFront (first : Char) (rest : List Char) : Front :=
  match rest.head?.bind (doubleMark? first), rest.head? with
  | some which, some second => .token (.terminal which) [first, second]
  | _, _ =>
    match singleMark? first with
    | some which => .token (.terminal which) [first]
    | none => .fault (.unexpected first) [first]

/-- What stands at the front of a text with the given first character. -/
def front (first : Char) (rest : List Char) : Front :=
  if isSpace first then .blank [first]
  else if isDigit first then numberFront first rest
  else if isWordStart first then wordFront first rest
  else if first = '"' then stringFront rest
  else
    match first, rest with
    | '/', '/' :: comment => .blank ('/' :: '/' :: comment.takeWhile (· ≠ '\n'))
    | '/', '*' :: comment =>
      match commentBody? comment with
      | some (body, _) => .blank ('/' :: '*' :: body)
      | none => .fault .unterminatedComment ['/', '*']
    | _, _ => markFront first rest

theorem front_raw_ne_nil (first : Char) (rest : List Char) : (front first rest).raw ≠ [] := by
  unfold front
  split
  · simp [Front.raw]
  split
  · simp only [numberFront, Front.raw]
    split <;> simp
  split
  · simp [wordFront, Front.raw]
  split
  · unfold stringFront
    split <;> simp [Front.raw]
  split
  · simp [Front.raw]
  · split <;> simp [Front.raw]
  · unfold markFront
    split
    · simp [Front.raw]
    · split <;> simp [Front.raw]

theorem front_eq_escapeFault {first escaped : Char} {rest raw : List Char}
    (found : front first rest = .escapeFault raw escaped) :
    ∃ tail, first :: rest = raw ++ '\\' :: escaped :: tail := by
  unfold front at found
  split at found
  · simp at found
  split at found
  · simp [numberFront] at found
  split at found
  · simp [wordFront] at found
  split at found
  · rename_i quote
    subst quote
    unfold stringFront at found
    split at found
    · simp at found
    · rename_i body
      simp only [Front.escapeFault.injEq] at found
      obtain ⟨rfl, rfl⟩ := found
      exact ⟨_, by rw [stringBody_eq_invalidEscape body]; rfl⟩
    · simp at found
  split at found
  · simp at found
  · split at found <;> simp at found
  · unfold markFront at found
    split at found
    · simp at found
    · split at found <;> simp at found

end Lexeme

end ClassScript
