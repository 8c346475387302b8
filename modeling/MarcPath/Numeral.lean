import MarcPath.Text.Decimal
import MarcPath.Text.Quoted

/-! Numerals of bounded length. A text is read as a signed number in the digits of any script, and a
number is written in decimal; neither is done beyond 4300 digits. -/
namespace MarcPath

inductive NumeralError where
  | malformed (text : Text)
  | tooManyDigits (count : Nat)
  | tooLarge
  deriving Repr, DecidableEq

namespace Numeral

/-- The most digits that are read or written. -/
def maxDigits : Nat := 4300

/-- The value of a run of digits, most significant first. -/
def digitsValue (digits : Text) : Nat :=
  digits.foldl (fun value c => 10 * value + (digitValue? c).getD 0) 0

/-- A sign and what follows it; `true` stands for minus. -/
def splitSign : Text → Bool × Text
  | '-' :: rest => (true, rest)
  | '+' :: rest => (false, rest)
  | text => (false, text)

/-- Reads a numeral: blanks around it are ignored, one sign may come first, and the digits are
counted before anything that follows them is looked at. -/
def read (text : Text) : Except NumeralError Int :=
  let (negative, body) := splitSign (text.trim isNumeralBlank)
  let digits := body.takeWhile isDigit
  if maxDigits < digits.length then .error (.tooManyDigits digits.length)
  else if digits.isEmpty || digits.length != body.length then .error (.malformed text)
  else if negative then .ok (-(digitsValue digits : Int))
  else .ok (digitsValue digits)

/-- Whether a number has few enough digits to be written. -/
def fits (number : Int) : Bool :=
  number.natAbs < Nat.pow 10 maxDigits

/-- The decimal form of a number of any size. -/
def decimal : Int → Text
  | .ofNat magnitude => Nat.toDigits 10 magnitude
  | .negSucc less => '-' :: Nat.toDigits 10 (less + 1)

/-- Writes a number that has few enough digits. -/
def write (number : Int) : Except NumeralError Text :=
  if fits number then .ok (decimal number) else .error .tooLarge

end Numeral

namespace NumeralError

/-- The most characters of a malformed text that are shown, its quotes included. -/
def maxShown : Nat := 200

def message : NumeralError → Text
  | malformed text => "invalid literal for int() with base 10: ".toList ++ text.quoted.take maxShown
  | tooManyDigits count =>
    "Exceeds the limit (4300 digits) for integer string conversion: value has ".toList ++
      Nat.toDigits 10 count ++
      " digits; use sys.set_int_max_str_digits() to increase the limit".toList
  | tooLarge =>
    ("Exceeds the limit (4300 digits) for integer string conversion; " ++
      "use sys.set_int_max_str_digits() to increase the limit").toList

end NumeralError
end MarcPath
