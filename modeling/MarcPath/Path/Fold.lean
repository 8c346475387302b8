import MarcPath.Path.Basic

/-! Folding a path from its innermost nested paths outwards. `fold_mk` says what a fold does at one
layer, and every traversal of nested paths rests on it. -/
namespace MarcPath.Path

variable {α : Type} (combine : Layer α → α)

mutual

/-- Combines a path from its innermost nested paths outwards. -/
def fold : Path → α
  | mk layer => combine (foldLayer layer)

def foldLayer : Layer Path → Layer α
  | ⟨field, subfields, nesting⟩ => ⟨foldField field, foldSubfields subfields, nesting⟩

def foldField : Field Path → Field α
  | ⟨head, groups⟩ => ⟨head, foldGroups groups⟩

def foldSubfields : List (Subfield Path) → List (Subfield α)
  | [] => []
  | subfield :: rest => foldSubfield subfield :: foldSubfields rest

def foldSubfield : Subfield Path → Subfield α
  | ⟨head, groups⟩ => ⟨head, foldGroups groups⟩

def foldGroups : List (Group Path) → List (Group α)
  | [] => []
  | group :: rest => foldGroup group :: foldGroups rest

def foldGroup : Group Path → Group α
  | ⟨first, others⟩ => ⟨foldCondition first, foldConditions others⟩

def foldConditions : List (Condition Path) → List (Condition α)
  | [] => []
  | condition :: rest => foldCondition condition :: foldConditions rest

def foldCondition : Condition Path → Condition α
  | ⟨left, operator, right, source⟩ => ⟨foldTerm left, operator, foldOperand right, source⟩

def foldTerm : Term Path → Term α
  | .absent context => .absent context
  | .given operand => .given (foldOperand operand)

def foldOperand : Operand Path → Operand α
  | .literal value => .literal value
  | .path value source => .path (fold value) source

end

private theorem foldOperand_eq (operand : Operand Path) :
    foldOperand combine operand = operand.map (fold combine) := by
  cases operand <;> rfl

private theorem foldTerm_eq (term : Term Path) :
    foldTerm combine term = term.map (fold combine) := by
  cases term with
  | absent context => rfl
  | given operand => simp [foldTerm, Term.map, foldOperand_eq]

private theorem foldCondition_eq (condition : Condition Path) :
    foldCondition combine condition = condition.map (fold combine) := by
  cases condition
  simp [foldCondition, Condition.map, foldTerm_eq, foldOperand_eq]

private theorem foldConditions_eq (conditions : List (Condition Path)) :
    foldConditions combine conditions = conditions.map (Condition.map (fold combine)) := by
  induction conditions with
  | nil => rfl
  | cons condition rest ih => simp [foldConditions, foldCondition_eq, ih]

private theorem foldGroup_eq (group : Group Path) :
    foldGroup combine group = group.map (fold combine) := by
  cases group
  simp [foldGroup, Group.map, foldCondition_eq, foldConditions_eq]

private theorem foldGroups_eq (groups : List (Group Path)) :
    foldGroups combine groups = groups.map (Group.map (fold combine)) := by
  induction groups with
  | nil => rfl
  | cons group rest ih => simp [foldGroups, foldGroup_eq, ih]

private theorem foldSubfields_eq (subfields : List (Subfield Path)) :
    foldSubfields combine subfields = subfields.map (Subfield.map (fold combine)) := by
  induction subfields with
  | nil => rfl
  | cons subfield rest ih =>
    cases subfield
    simp [foldSubfields, foldSubfield, Subfield.map, foldGroups_eq, ih]

/-- A fold first replaces each nested path by its own fold. -/
theorem fold_mk (layer : Layer Path) :
    fold combine (mk layer) = combine (layer.map (fold combine)) := by
  rcases layer with ⟨⟨head, groups⟩, subfields, nesting⟩
  simp [fold, foldLayer, foldField, Layer.map, Field.map, foldGroups_eq, foldSubfields_eq]

end MarcPath.Path
