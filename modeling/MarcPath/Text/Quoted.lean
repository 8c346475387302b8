import MarcPath.Text.Basic
import MarcPath.Text.Printable

/-! Quoted text, as it is shown inside messages and in the inspected form of a value. A character
without a visible form is written by its code point. -/
namespace MarcPath.Text

/-- A number in lowercase hexadecimal, filled with zeros to `width` digits. -/
def hexadecimal (width code : Nat) : Text :=
  let digits := Nat.toDigits 16 code
  List.replicate (width - digits.length) '0' ++ digits

/-- A character by its code point, in the shortest of the three forms. -/
def codePoint (code : Nat) : Text :=
  if code < 0x100 then '\\' :: 'x' :: hexadecimal 2 code
  else if code < 0x10000 then '\\' :: 'u' :: hexadecimal 4 code
  else '\\' :: 'U' :: hexadecimal 8 code

def quotedChar (quote c : Char) : Text :=
  if c == quote || c == '\\' then ['\\', c]
  else if c == '\t' then ['\\', 't']
  else if c == '\n' then ['\\', 'n']
  else if c == '\r' then ['\\', 'r']
  else if isPrintable c then [c]
  else codePoint c.toNat

/-- Single quotes are used unless the text holds a single quote and no double one. -/
def quoteMark (text : Text) : Char :=
  if text.contains '\'' && !text.contains '"' then '"' else '\''

/-- A text between quotes, with the quote and the backslash escaped. -/
def quoted (text : Text) : Text :=
  let quote := quoteMark text
  quote :: text.flatMap (quotedChar quote) ++ [quote]

end MarcPath.Text
