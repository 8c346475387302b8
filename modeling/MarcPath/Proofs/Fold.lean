import MarcPath.Path.Fold
import MarcPath.Path.Induction

/-! A fold is the only function that does at every layer what a fold does. What is put in place of the
nested paths of a layer hangs on those paths alone. -/
namespace MarcPath

variable {ρ σ : Type} {f g : ρ → σ}

theorem Operand.map_congr {operand : Operand ρ} (same : ∀ path ∈ operand.paths, f path = g path) :
    operand.map f = operand.map g := by
  cases operand with
  | literal value => rfl
  | path value source => rw [Operand.map, Operand.map, same value (by simp [Operand.paths])]

theorem Term.map_congr {term : Term ρ} (same : ∀ path ∈ term.paths, f path = g path) :
    term.map f = term.map g := by
  cases term with
  | absent context => rfl
  | given operand => exact congrArg Term.given (Operand.map_congr same)

theorem Condition.map_congr {condition : Condition ρ}
    (same : ∀ path ∈ condition.paths, f path = g path) : condition.map f = condition.map g := by
  have left := Term.map_congr fun path member => same path (List.mem_append_left _ member)
  have right := Operand.map_congr fun path member => same path (List.mem_append_right _ member)
  rw [Condition.map, Condition.map, left, right]

theorem Group.map_congr {group : Group ρ} (same : ∀ path ∈ group.paths, f path = g path) :
    group.map f = group.map g := by
  have first := Condition.map_congr fun path member => same path (List.mem_append_left _ member)
  have others : group.others.map (Condition.map f) = group.others.map (Condition.map g) := by
    apply List.map_congr_left
    intro condition known
    apply Condition.map_congr
    intro path member
    exact same path (List.mem_append_right _ (List.mem_flatMap.mpr ⟨condition, known, member⟩))
  rw [Group.map, Group.map, first, others]

private theorem map_groups_congr {groups : List (Group ρ)}
    (same : ∀ path ∈ groups.flatMap Group.paths, f path = g path) :
    groups.map (Group.map f) = groups.map (Group.map g) :=
  List.map_congr_left fun group known => Group.map_congr fun path member =>
    same path (List.mem_flatMap.mpr ⟨group, known, member⟩)

theorem Layer.map_congr {layer : Layer ρ} (same : ∀ path ∈ layer.paths, f path = g path) :
    layer.map f = layer.map g := by
  have field : layer.field.map f = layer.field.map g := by
    rw [Field.map, Field.map, map_groups_congr fun path member =>
      same path (List.mem_append_left _ member)]
  have subfields : layer.subfields.map (Subfield.map f) = layer.subfields.map (Subfield.map g) := by
    apply List.map_congr_left
    intro subfield known
    rw [Subfield.map, Subfield.map, map_groups_congr fun path member =>
      same path (List.mem_append_right _ (List.mem_flatMap.mpr ⟨subfield, known, member⟩))]
  rw [Layer.map, Layer.map, field, subfields]

namespace Path

variable {α : Type} {combine : Layer α → α}

theorem fold_unique {h : Path → α} (step : ∀ layer, h (mk layer) = combine (layer.map h)) :
    h = fold combine := by
  funext path
  refine @induct (fun path => h path = fold combine path) ?_ path
  intro layer same
  rw [step, fold_mk, Layer.map_congr same]

end Path
end MarcPath
