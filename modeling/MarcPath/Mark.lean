import MarcPath.Text.Basic

/-! The structure of a text is in its brackets and dollars. One that directly follows a dollar or a
backslash is a plain character instead; only that one character before it counts. -/
namespace MarcPath

/-- A dollar and a backslash shield the character after them. -/
def isShield (c : Char) : Bool :=
  c == '$' || c == '\\'

def isShielded (before : Option Char) : Bool :=
  before.any isShield

/-- What a character is to the structure of a text. -/
inductive Mark where
  | opening
  | closing
  | dollar
  | plain (c : Char)
  deriving Repr, DecidableEq

namespace Mark

def ofChar (before : Option Char) (c : Char) : Mark :=
  if isShielded before then plain c
  else if c == '{' then opening
  else if c == '}' then closing
  else if c == '$' then dollar
  else plain c

def char : Mark → Char
  | opening => '{'
  | closing => '}'
  | dollar => '$'
  | plain c => c

def isBracket : Mark → Bool
  | opening | closing => true
  | _ => false

/-- The marks of a text that follows the character `before`. -/
def ofText (before : Option Char) : Text → List Mark
  | [] => []
  | c :: rest => ofChar before c :: ofText (some c) rest

theorem char_ofChar (before : Option Char) (c : Char) : (ofChar before c).char = c := by
  unfold ofChar
  repeat' split
  all_goals simp_all [char]

/-- Marks only classify: the text can be read off them. -/
theorem map_char_ofText (before : Option Char) (text : Text) :
    (ofText before text).map char = text := by
  induction text generalizing before with
  | nil => rfl
  | cons c rest ih => simp [ofText, char_ofChar, ih]

end Mark
end MarcPath
