import MarcPath.Tree.Basic
import MarcPath.Error

/-! JSON text of a data tree, in ASCII, on one line or with one item to a line. -/
namespace MarcPath

/-- How the items of a JSON list or object are set. -/
inductive Layout where
  | inline
  /-- One item to a line, each level set in by this many spaces. -/
  | lines (width : Nat)
  deriving Repr, DecidableEq

namespace Layout

/-- No indent means one line; an indent below zero sets nothing in. -/
def ofIndent : Option Int → Layout
  | none => inline
  | some indent => lines indent.toNat

/-- The break before an item at a level. -/
def newline (layout : Layout) (level : Nat) : Text :=
  match layout with
  | inline => []
  | lines width => '\n' :: List.replicate (width * level) ' '

def comma : Layout → Text
  | inline => [',', ' ']
  | lines _ => [',']

/-- Written items between brackets; an empty list stays on one line. -/
def enclose (layout : Layout) (level : Nat) (opening closing : Char) : List Text → Text
  | [] => [opening, closing]
  | items =>
    let start := layout.newline (level + 1)
    opening :: start ++ List.intercalate (layout.comma ++ start) items ++
      layout.newline level ++ [closing]

end Layout

namespace Json

def unicodeEscape (unit : Nat) : Text :=
  '\\' :: 'u' :: Text.hexadecimal 4 unit

/-- Characters outside visible ASCII are written in units of sixteen bits, two for a character of
the higher planes. -/
def escapedChar (c : Char) : Text :=
  if c == '"' || c == '\\' then ['\\', c]
  else if ' ' ≤ c && c ≤ '~' then [c]
  else if c == '\n' then ['\\', 'n']
  else if c == '\r' then ['\\', 'r']
  else if c == '\t' then ['\\', 't']
  else if c == '\x08' then ['\\', 'b']
  else if c == '\x0c' then ['\\', 'f']
  else if c.toNat < 0x10000 then unicodeEscape c.toNat
  else
    let offset := c.toNat - 0x10000
    unicodeEscape (0xD800 + offset / 0x400) ++ unicodeEscape (0xDC00 + offset % 0x400)

def string (text : Text) : Text :=
  '"' :: text.flatMap escapedChar ++ ['"']

end Json

namespace Tree

mutual

/-- The JSON text of a tree whose first character stands at `level`. -/
def render (layout : Layout) (level : Nat) : Tree → Text
  | null => ['n', 'u', 'l', 'l']
  | number value => Numeral.decimal value
  | text value => Json.string value
  | list items => layout.enclose level '[' ']' (renderItems layout (level + 1) items)
  | record entries => layout.enclose level '{' '}' (renderEntries layout (level + 1) entries)

def renderItems (layout : Layout) (level : Nat) : List Tree → List Text
  | [] => []
  | item :: rest => item.render layout level :: renderItems layout level rest

def renderEntries (layout : Layout) (level : Nat) : List (Text × Tree) → List Text
  | [] => []
  | (key, value) :: rest =>
    (Json.string key ++ [':', ' '] ++ value.render layout level) :: renderEntries layout level rest

end

/-- The JSON text of a tree, unless one of its numbers is too large to be written. -/
def json (layout : Layout) (tree : Tree) : Except Error Text :=
  if tree.numbers.all Numeral.fits then .ok (tree.render layout 0)
  else .error (.numeral .tooLarge)

end Tree
end MarcPath
