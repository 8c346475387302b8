import MarcPath.Text.Basic

/-! Parts of a text: what is left of it when its ends are dropped, and the pieces that it is put together
from. -/
namespace MarcPath.Text

variable {drop : Char → Bool} {text : Text}

private theorem dropWhile_eq_self (kept : ∀ c ∈ text, drop c = false) :
    text.dropWhile drop = text := by
  cases text with
  | nil => rfl
  | cons c rest => simp [kept c (by simp)]

theorem trim_eq_self (kept : ∀ c ∈ text, drop c = false) : trim drop text = text := by
  have reversed : ∀ c ∈ text.reverse, drop c = false := by simpa using kept
  rw [trim, dropWhile_eq_self kept, dropWhile_eq_self reversed, List.reverse_reverse]

theorem exists_trim (drop : Char → Bool) (text : Text) :
    ∃ front back, text = front ++ trim drop text ++ back ∧ (∀ c ∈ front, drop c = true) ∧
      ∀ c ∈ back, drop c = true := by
  let rest := (text.dropWhile drop).reverse
  have dropped (other : Text) : ∀ c ∈ other.takeWhile drop, drop c = true :=
    List.all_eq_true.mp List.all_takeWhile
  refine ⟨text.takeWhile drop, (rest.takeWhile drop).reverse, ?_, dropped text, by simpa using dropped rest⟩
  have whole : trim drop text ++ (rest.takeWhile drop).reverse = text.dropWhile drop := by
    rw [trim, ← List.reverse_append, List.takeWhile_append_dropWhile, List.reverse_reverse]
  rw [List.append_assoc, whole, List.takeWhile_append_dropWhile]

theorem strip_eq_self (solid : text.hasBlank = false) : text.strip = text :=
  trim_eq_self (by simpa [hasBlank] using solid)

theorem solid_iff : text.hasBlank = false ↔ ∀ c ∈ text, isBlank c = false := by
  simp [hasBlank]

theorem solid_append {first second : Text} :
    (first ++ second).hasBlank = false ↔ first.hasBlank = false ∧ second.hasBlank = false := by
  simp [hasBlank]

theorem hasBlank_of_infix {part : Text} (inside : part <:+: text)
    (solid : text.hasBlank = false) : part.hasBlank = false := by
  rw [solid_iff] at solid ⊢
  exact fun c member => solid c (inside.subset member)

theorem infix_of_strip (text : Text) : text.strip <:+: text := by
  obtain ⟨front, back, whole, -⟩ := exists_trim isBlank text
  exact ⟨front, back, whole.symm⟩

theorem infix_intercalate (separator : Text) {piece : Text} {pieces : List Text}
    (member : piece ∈ pieces) : piece <:+: List.intercalate separator pieces := by
  induction pieces with
  | nil => cases member
  | cons first rest ih =>
    cases rest with
    | nil =>
      obtain rfl := List.mem_singleton.mp member
      have whole : separator.intercalate [piece] = piece := List.intercalate_singleton
      exact whole.symm ▸ List.infix_rfl
    | cons next more =>
      rw [List.intercalate_cons_cons]
      rcases List.mem_cons.mp member with rfl | member
      · exact ⟨[], separator ++ separator.intercalate (next :: more), by simp⟩
      · exact List.infix_append_of_infix_right (ih member)

end MarcPath.Text
