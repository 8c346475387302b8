import MarcPath.Path.Fold
import MarcPath.Tree.Json

/-! The data tree of a path: heads are flattened into entries, groups are listed under `subspecs`,
and a nested path is a tree of its own. -/
namespace MarcPath

section

variable {ρ : Type} (nested : ρ → Except Error Tree)

def Literal.tree (literal : Literal) : Tree :=
  .record [("comparison_string".toList, .text literal.raw)]

def Operand.tree : Operand ρ → Except Error Tree
  | literal value => .ok value.tree
  | path value _ => nested value

/-- An absent term has no tree. -/
def Term.tree : Term ρ → Except Error Tree
  | absent _ => .ok .null
  | given operand => operand.tree nested

def Condition.tree (condition : Condition ρ) : Except Error Tree := do
  let left ← match condition.left with
    | .absent _ => .ok []
    | .given operand => (operand.tree nested).map fun tree => [("left_subterm".toList, tree)]
  let right ← condition.right.tree nested
  return .record (left ++
    [("operator".toList, .text condition.operator.symbol), ("right_subterm".toList, right)])

/-- A single condition stands for its group; alternatives are a list. -/
def Group.tree (group : Group ρ) : Except Error Tree := do
  let first ← group.first.tree nested
  let others ← List.mapM (Condition.tree nested) group.others
  return if others.isEmpty then first else .list (first :: others)

/-- A list under a key, or nothing at all if it is empty. -/
def Tree.listEntry (key : String) (items : List Tree) : List (Text × Tree) :=
  if items.isEmpty then [] else [(key.toList, .list items)]

def Field.tree (field : Field ρ) : Except Error Tree := do
  let head ← field.head.entries
  let groups ← List.mapM (Group.tree nested) field.groups
  return .record (head ++ Tree.listEntry "subspecs" groups)

def Subfield.tree (subfield : Subfield ρ) : Except Error Tree := do
  let head ← subfield.head.entries
  let groups ← List.mapM (Group.tree nested) subfield.groups
  return .record (head ++ Tree.listEntry "subspecs" groups)

def Layer.tree (layer : Layer ρ) : Except Error Tree := do
  let field ← layer.field.tree nested
  let subfields ← List.mapM (Subfield.tree nested) layer.subfields
  return .record (("field".toList, field) :: Tree.listEntry "subfields" subfields)

end

section

variable {ρ σ : Type} (nested : σ → Except Error Tree) (f : ρ → σ)

theorem Operand.tree_map (operand : Operand ρ) :
    (operand.map f).tree nested = operand.tree (nested ∘ f) := by
  cases operand <;> rfl

theorem Condition.tree_map (condition : Condition ρ) :
    (condition.map f).tree nested = condition.tree (nested ∘ f) := by
  rcases condition with ⟨left, operator, right, source⟩
  cases left <;> simp [Condition.tree, Condition.map, Term.map, Operand.tree_map]

theorem Group.tree_map (group : Group ρ) :
    (group.map f).tree nested = group.tree (nested ∘ f) := by
  simp [Group.tree, Group.map, Condition.tree_map, List.mapM_map, Function.comp_def]

theorem Field.tree_map (field : Field ρ) :
    (field.map f).tree nested = field.tree (nested ∘ f) := by
  simp [Field.tree, Field.map, Group.tree_map, List.mapM_map, Function.comp_def]

theorem Subfield.tree_map (subfield : Subfield ρ) :
    (subfield.map f).tree nested = subfield.tree (nested ∘ f) := by
  simp [Subfield.tree, Subfield.map, Group.tree_map, List.mapM_map, Function.comp_def]

theorem Layer.tree_map (layer : Layer ρ) :
    (layer.map f).tree nested = layer.tree (nested ∘ f) := by
  simp [Layer.tree, Layer.map, Field.tree_map, Subfield.tree_map, List.mapM_map,
    Function.comp_def]

end

namespace Path

/-- The tree of a path, from its innermost nested paths outwards. -/
def tree : Path → Except Error Tree :=
  fold (Layer.tree id)

theorem tree_mk (layer : Layer Path) : (mk layer).tree = layer.tree tree := by
  rw [tree, fold_mk, Layer.tree_map]
  rfl

/-- The JSON text of the tree of a path. -/
def json (layout : Layout) (path : Path) : Except Error Text := do
  (← path.tree).json layout

end Path
end MarcPath
