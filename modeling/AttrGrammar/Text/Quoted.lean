import AttrGrammar.Text.Hex
import AttrGrammar.Text.Invisible

/-!
Characters and texts in quotes, for messages.

A character that shows as itself stands for itself; the quote in use, the backslash and the
characters that do not show are written as escapes, so each text has one quoted form on one line.
-/

namespace AttrGrammar.Text

/-- A character inside quotes. -/
def escaped (quote c : Char) : String :=
  match c with
  | '\x00' => "\\0"
  | '\t' => "\\t"
  | '\r' => "\\r"
  | '\n' => "\\n"
  | '\\' => "\\\\"
  | c =>
    if c = quote then "\\" ++ c.toString
    else if isInvisible c then "\\u\x7b" ++ hex c.toNat ++ "\x7d"
    else c.toString

/-- A text in double quotes. -/
def quoted (text : String) : String :=
  "\"" ++ String.join (text.toList.map (escaped '"')) ++ "\""

/-- A character in single quotes. -/
def quotedChar (c : Char) : String :=
  "'" ++ escaped '\'' c ++ "'"

end AttrGrammar.Text
