import ClassScript.Document
import ClassScript.Number
import ClassScript.Position

/-!
Tokens: the words, marks and literals a program text consists of.
-/

set_option autoImplicit false

namespace ClassScript

/-- The tokens with a fixed meaning: punctuation, operators and keywords. -/
inductive Terminal where
  | leftParen | rightParen | leftBrace | rightBrace | leftBracket | rightBracket
  | comma | dot | semicolon | colon
  | minus | plus | slash | star | percent | arrow
  | bang | bangEqual | equal | equalEqual | greater | greaterEqual | less | lessEqual
  | plusEqual | minusEqual | starEqual | slashEqual
  | andWord | breakWord | classWord | continueWord | elseWord | extendsWord | falseWord | fnWord
  | forWord | ifWord | nilWord | orWord | overrideWord | printWord | privateWord | protectedWord
  | publicWord | returnWord | superWord | thisWord | trueWord | varWord | virtualWord | whileWord
  deriving DecidableEq, Repr

/-- The name a token kind is listed under. -/
def Terminal.name : Terminal → String
  | leftParen => "LEFT_PAREN"
  | rightParen => "RIGHT_PAREN"
  | leftBrace => "LEFT_BRACE"
  | rightBrace => "RIGHT_BRACE"
  | leftBracket => "LEFT_BRACKET"
  | rightBracket => "RIGHT_BRACKET"
  | comma => "COMMA"
  | dot => "DOT"
  | semicolon => "SEMICOLON"
  | colon => "COLON"
  | minus => "MINUS"
  | plus => "PLUS"
  | slash => "SLASH"
  | star => "STAR"
  | percent => "PERCENT"
  | arrow => "ARROW"
  | bang => "BANG"
  | bangEqual => "BANG_EQUAL"
  | equal => "EQUAL"
  | equalEqual => "EQUAL_EQUAL"
  | greater => "GREATER"
  | greaterEqual => "GREATER_EQUAL"
  | less => "LESS"
  | lessEqual => "LESS_EQUAL"
  | plusEqual => "PLUS_EQUAL"
  | minusEqual => "MINUS_EQUAL"
  | starEqual => "STAR_EQUAL"
  | slashEqual => "SLASH_EQUAL"
  | andWord => "AND"
  | breakWord => "BREAK"
  | classWord => "CLASS"
  | continueWord => "CONTINUE"
  | elseWord => "ELSE"
  | extendsWord => "EXTENDS"
  | falseWord => "FALSE"
  | fnWord => "FN"
  | forWord => "FOR"
  | ifWord => "IF"
  | nilWord => "NIL"
  | orWord => "OR"
  | overrideWord => "OVERRIDE"
  | printWord => "PRINT"
  | privateWord => "PRIVATE"
  | protectedWord => "PROTECTED"
  | publicWord => "PUBLIC"
  | returnWord => "RETURN"
  | superWord => "SUPER"
  | thisWord => "THIS"
  | trueWord => "TRUE"
  | varWord => "VAR"
  | virtualWord => "VIRTUAL"
  | whileWord => "WHILE"

namespace Token

/-- What a token is; string and number literals carry their value. -/
inductive Kind where
  | terminal (which : Terminal)
  | identifier
  | string (value : String)
  | number (value : Float)
  | finish

def Kind.name : Kind → String
  | terminal which => which.name
  | identifier => "IDENTIFIER"
  | string _ => "STRING"
  | number _ => "NUMBER"
  | finish => "EOF"

/-- The kind as a document: a literal has its value beside its name. -/
def Kind.document : Kind → Document
  | string value => .record [("STRING", .text value)]
  | number value => .record [("NUMBER", .number value)]
  | kind => .text kind.name

end Token

/-- A token, the text it was read from, and where that text begins. -/
structure Token where
  kind : Token.Kind
  lexeme : String
  position : Position

namespace Token

def listed (token : Token) : String :=
  let payload := match token.kind with
    | .string value => value
    | .number value => Number.tokenText value
    | _ => "null"
  token.kind.name ++ " " ++ token.lexeme ++ " " ++ payload

def document (token : Token) : Document :=
  .record [
    ("token_type", token.kind.document),
    ("lexeme", .text token.lexeme),
    ("line", .natural token.position.line),
    ("column", .natural token.position.column)]

end Token

end ClassScript
