import MarcPath.Error

/-! A term that begins like a part of a path is relative: it continues the context, the path that its
condition is attached to. -/
namespace MarcPath.Reference

/-- The characters that introduce an index, a character span, indicators or a subfield. -/
def isMarker (c : Char) : Bool :=
  c == '[' || c == '/' || c == '_' || c == '$'

/-- Resolves a term against its context. If its first character occurs in the context after the
start, the term replaces what stands from the last occurrence on; otherwise it is appended. -/
def resolve (context term : Text) : Except Error Text :=
  if context.isEmpty then violates .condition .missingField term
  else
    match term with
    | [] => .error .emptyTerm
    | marker :: _ =>
      match context.beforeLast marker with
      | some (first :: kept) => .ok (first :: kept ++ term)
      | _ => .ok (context ++ term)

end MarcPath.Reference
