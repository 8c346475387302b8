import MarcPath.Path.Basic

/-! The paths nested directly in a path, and induction over them: what holds of a path whenever it
holds of the paths in its conditions holds of every path. -/
namespace MarcPath

variable {ρ : Type}

def Operand.paths : Operand ρ → List ρ
  | literal _ => []
  | path value _ => [value]

def Term.paths : Term ρ → List ρ
  | absent _ => []
  | given operand => operand.paths

def Condition.paths (condition : Condition ρ) : List ρ :=
  condition.left.paths ++ condition.right.paths

def Group.paths (group : Group ρ) : List ρ :=
  group.first.paths ++ group.others.flatMap Condition.paths

def Field.paths (field : Field ρ) : List ρ :=
  field.groups.flatMap Group.paths

def Subfield.paths (subfield : Subfield ρ) : List ρ :=
  subfield.groups.flatMap Group.paths

/-- The paths nested directly in a layer. -/
def Layer.paths (layer : Layer ρ) : List ρ :=
  layer.field.paths ++ layer.subfields.flatMap Subfield.paths

namespace Path

/-- A property that a path has whenever the paths nested directly in it have it. -/
def Hereditary (property : Path → Prop) : Prop :=
  ∀ layer, (∀ path ∈ Layer.paths layer, property path) → property (mk layer)

variable {property : Path → Prop}

mutual

theorem induct (hereditary : Hereditary property) : ∀ path : Path, property path
  | mk layer => hereditary layer (inductLayer hereditary layer)

private theorem inductLayer (hereditary : Hereditary property) :
    ∀ (layer : Layer Path), ∀ path ∈ layer.paths, property path
  | ⟨⟨_, groups⟩, subfields, _⟩, path, member =>
    (List.mem_append.mp member).elim (inductGroups hereditary groups path)
      (inductSubfields hereditary subfields path)

private theorem inductSubfields (hereditary : Hereditary property) :
    ∀ (subfields : List (Subfield Path)), ∀ path ∈ subfields.flatMap Subfield.paths, property path
  | [], _, member => absurd member List.not_mem_nil
  | ⟨_, groups⟩ :: rest, path, member =>
    (List.mem_append.mp member).elim (inductGroups hereditary groups path)
      (inductSubfields hereditary rest path)

private theorem inductGroups (hereditary : Hereditary property) :
    ∀ (groups : List (Group Path)), ∀ path ∈ groups.flatMap Group.paths, property path
  | [], _, member => absurd member List.not_mem_nil
  | ⟨first, others⟩ :: rest, path, member =>
    (List.mem_append.mp member).elim
      (fun inside => (List.mem_append.mp inside).elim
        (inductCondition hereditary first path) (inductConditions hereditary others path))
      (inductGroups hereditary rest path)

private theorem inductConditions (hereditary : Hereditary property) :
    ∀ (conditions : List (Condition Path)),
      ∀ path ∈ conditions.flatMap Condition.paths, property path
  | [], _, member => absurd member List.not_mem_nil
  | condition :: rest, path, member =>
    (List.mem_append.mp member).elim (inductCondition hereditary condition path)
      (inductConditions hereditary rest path)

private theorem inductCondition (hereditary : Hereditary property) :
    ∀ (condition : Condition Path), ∀ path ∈ condition.paths, property path
  | ⟨left, _, right, _⟩, path, member =>
    (List.mem_append.mp member).elim (inductTerm hereditary left path)
      (inductOperand hereditary right path)

private theorem inductTerm (hereditary : Hereditary property) :
    ∀ (term : Term Path), ∀ path ∈ term.paths, property path
  | .absent _, _, member => absurd member List.not_mem_nil
  | .given operand, path, member => inductOperand hereditary operand path member

private theorem inductOperand (hereditary : Hereditary property) :
    ∀ (operand : Operand Path), ∀ path ∈ operand.paths, property path
  | .literal _, _, member => absurd member List.not_mem_nil
  | .path value _, path, member => List.mem_singleton.mp member ▸ induct hereditary value

end

end Path
end MarcPath
