import MarcPath.Error

/-! Arguments from outside, where a text is expected and anything else may be given. -/
namespace MarcPath

inductive Argument where
  | text (value : Text)
  | other (kind : Kind)
  deriving Repr, DecidableEq

namespace Argument

def kind : Argument → Kind
  | text _ => .text
  | other kind => kind

/-- The text that was given, if it was one. -/
def asText : Argument → Except Error Text
  | text value => .ok value
  | other kind => .error (.expectedText kind)

end Argument
end MarcPath
