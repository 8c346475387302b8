import MarcPath.Path.Basic
import MarcPath.Segment

/-! Reading a path. The text is cut into a field head and a tail, the tail into segments, and each
group is read in the context of the head it follows. Nested paths are read by the same rules one
level deeper, until the limit is reached. -/
namespace MarcPath

/-- What a tail adds to a path: groups on its field, and subfields. -/
structure Additions (ρ : Type) where
  groups : List (Group ρ)
  subfields : List (Subfield ρ)
  deriving Repr

section

variable {ρ : Type} (nested : Text → Except Error ρ)

/-- The subfield of one token, with the groups of its segment read in its own context. -/
def Segment.subfield (base : Text) (groups : List Text) (token : Text) :
    Except Error (Subfield ρ) := do
  let head ← SubfieldHead.parse token
  let groups ← List.mapM (Group.parse nested (base ++ head.render)) groups
  return ⟨head, groups⟩

/-- The subfields of a segment, one for each of its tokens. -/
def Segment.subfields (base : Text) (segment : Segment) : Except Error (List (Subfield ρ)) := do
  let tokens ← segment.tokens
  List.mapM (Segment.subfield nested base segment.groups) tokens

/-- All that a tail adds to a path whose field head is written `base`. -/
def Tail.additions (base : Text) (tail : Tail) : Except Error (Additions ρ) := do
  let groups ← List.mapM (Group.parse nested base) tail.groups
  let subfields ← List.mapM (Segment.subfields nested base) tail.segments
  return ⟨groups, subfields.flatten⟩

end

namespace Layer

variable {ρ : Type}

/-- Adds what a tail adds, behind what is already there. -/
def extend (layer : Layer ρ) (additions : Additions ρ) : Layer ρ :=
  { layer with
    field := layer.field.attach additions.groups
    subfields := layer.subfields ++ additions.subfields }

/-- The tail of a path begins at its first bracket or dollar. -/
def startsTail (c : Char) : Bool :=
  c == '{' || c == '$'

/-- Reads a text without blanks around it. -/
def parseStripped (nested : Text → Except Error ρ) (nesting : Nesting) (text : Text) :
    Except Error (Layer ρ) :=
  let head := text.takeWhile (!startsTail ·)
  if text.isEmpty then violates .path .empty text
  else if text.length < 3 then violates .path .underThree text
  else if text.hasBlank then violates .path .blank text
  else if head.isEmpty then violates .path .missingField text
  else do
    let field ← Field.parse head
    let tail ← Tail.parse (text.dropWhile (!startsTail ·))
    let additions ← tail.additions nested field.head.render
    return (ofField nesting field).extend additions

end Layer

namespace Path

/-- Reads a path with so many levels left. The limit is checked before the text. -/
def parseWithin : (levels : Nat) → Nesting → Text → Except Error Path
  | 0, _, text => violates .path .tooDeep text
  | levels + 1, nesting, text =>
    (Layer.parseStripped (parseWithin levels nesting.deeper) nesting text.strip).map mk

/-- Reads a path at a depth under a limit. -/
def parse (nesting : Nesting) (text : Text) : Except Error Path :=
  parseWithin nesting.levels nesting text

/-- Within the limit a path is one layer, whose nested paths are read one level deeper. -/
theorem parse_eq (nesting : Nesting) (text : Text) :
    parse nesting text =
      if nesting.maxDepth < nesting.depth then violates .path .tooDeep text
      else (Layer.parseStripped (parse nesting.deeper) nesting text.strip).map .mk := by
  unfold parse
  split
  · rename_i beyond
    have none : nesting.levels = 0 := by simp only [Nesting.levels]; omega
    rw [none, parseWithin]
  · rename_i within
    have more : nesting.levels = nesting.deeper.levels + 1 := by
      simp only [Nesting.levels, Nesting.deeper]; omega
    rw [more, parseWithin]

end Path

/-- Reads one bracketed group in a context; `nesting` is that of the path it belongs to. -/
def Group.parseIn (nesting : Nesting) (context group : Text) : Except Error (Group Path) :=
  Group.parse (Path.parse nesting.deeper) context group

/-- Cuts a text that is to be added to a path. It begins with a dollar. -/
def Tail.parseAdded (text : Text) : Except Error Tail :=
  if text.length < 2 then violates .subfield .underTwo text
  else if text.head? != some '$' then violates .subfield .missingDollar text
  else Tail.parse text

/-- Reads what to add to a path whose field head is written `base`. -/
def Additions.parse (nesting : Nesting) (base text : Text) : Except Error (Additions Path) := do
  let tail ← Tail.parseAdded text
  tail.additions (Path.parse nesting.deeper) base

/-- Adds the subfields of a text such as `$a$b` to a path. -/
def Path.addSubfields (text : Text) (path : Path) : Except Error Path := do
  let additions ← Additions.parse path.nesting path.field.head.render text
  return .mk (path.layer.extend additions)

end MarcPath
