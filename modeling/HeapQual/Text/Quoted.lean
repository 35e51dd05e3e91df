import HeapQual.Text.Extending
import HeapQual.Text.Invisible
import HeapQual.Text.Unassigned

/-!
# Quoted texts

A text inside a log record stands between double quotes.  Quotes, backslashes and the common
control characters are escaped by a letter.  A character that a reader could not make out next
to its neighbours is written as its code point: one that is invisible, one that is unassigned,
and one that would be drawn onto the character before it.
-/

namespace HeapQual

namespace Text

/-- Is a quoted character written as its code point? -/
def isObscure (c : Char) : Bool := invisible.holds c || extending.holds c || unassigned.holds c

/-- The lower-case hexadecimal digits of a code point. -/
private def hexadecimal (c : Char) : String := String.ofList (Nat.toDigits 16 c.toNat)

/-- One character of a quoted text. -/
def quotedChar (c : Char) : String :=
  if c = '"' then "\\\""
  else if c = '\\' then "\\\\"
  else if c = '\n' then "\\n"
  else if c = '\r' then "\\r"
  else if c = '\t' then "\\t"
  else if c.toNat = 0 then "\\0"
  else if isObscure c then "\\u\x7b" ++ hexadecimal c ++ "\x7d"
  else c.toString

/-- A text between double quotes, with quotes, backslashes and obscure characters escaped. -/
def quoted (text : String) : String :=
  "\"" ++ String.join (text.toList.map quotedChar) ++ "\""

end Text

end HeapQual
