import ClassScript.Text.Combining
import ClassScript.Text.Printable

/-!
Text between double quotes, as strings are shown inside containers: a few characters have a named
escape, and characters that would not be seen on their own are written by their number.
-/

namespace ClassScript.Text

def numberedEscape (c : Char) : String :=
  "\\u\x7b" ++ String.ofList (Nat.toDigits 16 c.toNat) ++ "\x7d"

def quotedChar (c : Char) : String :=
  match c with
  | '\x00' => "\\0"
  | '\t' => "\\t"
  | '\r' => "\\r"
  | '\n' => "\\n"
  | '"' => "\\\""
  | '\\' => "\\\\"
  | _ => if isCombining c || !isPrintable c then numberedEscape c else c.toString

def quoted (s : String) : String :=
  "\"" ++ String.join (s.toList.map quotedChar) ++ "\""

end ClassScript.Text
