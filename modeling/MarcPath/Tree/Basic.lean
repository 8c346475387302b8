import MarcPath.Text.Basic

/-! The data tree of a path: what is handed to readers of the decoded structure. -/
namespace MarcPath

/-- A tree of numbers and texts; the entries of a record keep their order. -/
inductive Tree where
  | null
  | number (value : Int)
  | text (value : Text)
  | list (items : List Tree)
  | record (entries : List (Text × Tree))
  deriving Repr

namespace Tree

mutual

/-- The numbers of a tree, in the order in which they are written. -/
def numbers : Tree → List Int
  | null => []
  | number value => [value]
  | text _ => []
  | list items => numbersOfItems items
  | record entries => numbersOfEntries entries

def numbersOfItems : List Tree → List Int
  | [] => []
  | item :: rest => item.numbers ++ numbersOfItems rest

def numbersOfEntries : List (Text × Tree) → List Int
  | [] => []
  | (_, value) :: rest => value.numbers ++ numbersOfEntries rest

end

end Tree
end MarcPath
