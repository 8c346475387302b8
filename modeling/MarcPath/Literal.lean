import MarcPath.Error

/-! Literals are the fixed texts that a condition compares with. A literal is kept as written: a
blank is spelled `\s`, and a character with a meaning in the notation follows a backslash. -/
namespace MarcPath

structure Literal where
  raw : Text
  deriving Repr, DecidableEq

namespace Literal

def ofRaw (raw : Text) : Except Error Literal :=
  if raw.hasBlank then violates .literal .blank raw else .ok ⟨raw⟩

/-- The text that a spelling stands for. A backslash at the very end stands for itself. -/
def unescape : Text → Text
  | [] => []
  | ['\\'] => ['\\']
  | '\\' :: c :: rest => (if c == 's' then ' ' else c) :: unescape rest
  | c :: rest => c :: unescape rest

/-- The text to compare with. -/
def comparable (literal : Literal) : Text :=
  unescape literal.raw

/-- The characters that have a meaning inside a condition. -/
def isSpecial (c : Char) : Bool :=
  ['\\', '{', '}', '!', '=', '~', '?', '|'].contains c

def escapeChar (c : Char) : Text :=
  if isSpecial c then ['\\', c] else if c == ' ' then ['\\', 's'] else [c]

/-- The spelling of a text as a literal. -/
def escape (text : Text) : Text :=
  text.flatMap escapeChar

/-- A literal as a term: a backslash and the spelling. -/
def render (literal : Literal) : Text :=
  '\\' :: literal.raw

end Literal
end MarcPath
