import MarcPath.Proofs.Mark

/-! Balanced brackets. `Closes` relates an opened bracket to the marks up to the one that closes it;
until then the balance of the marks is never down to where it was before. -/
namespace MarcPath

namespace Mark

/-- How many more brackets marks open than they close. -/
def balance : List Mark → Int
  | [] => 0
  | opening :: rest => balance rest + 1
  | closing :: rest => balance rest - 1
  | _ :: rest => balance rest

/-- The marks close an open bracket with their last mark, and on the way `depth` brackets that were
opened after it. -/
inductive Closes : Nat → List Mark → Prop where
  | last : Closes 0 [closing]
  | opening {depth : Nat} {rest : List Mark} (deeper : Closes (depth + 1) rest) :
      Closes depth (opening :: rest)
  | closing {depth : Nat} {rest : List Mark} (outer : Closes depth rest) :
      Closes (depth + 1) (closing :: rest)
  | other {depth : Nat} {rest : List Mark} {mark : Mark} (flat : mark.isBracket = false)
      (later : Closes depth rest) : Closes depth (mark :: rest)

theorem balance_append (first second : List Mark) :
    balance (first ++ second) = balance first + balance second := by
  induction first with
  | nil => simp [balance]
  | cons mark rest ih => cases mark <;> simp only [List.cons_append, balance, ih] <;> omega

theorem balance_flat {mark : Mark} (flat : mark.isBracket = false) (rest : List Mark) :
    balance (mark :: rest) = balance rest := by
  cases mark <;> simp_all [balance, isBracket]

namespace Closes

variable {depth : Nat} {marks : List Mark}

theorem balance_eq (closes : Closes depth marks) : balance marks = -(depth + 1) := by
  induction closes with
  | last => rfl
  | opening deeper ih => simp only [balance, ih]; omega
  | closing outer ih => simp only [balance, ih]; omega
  | other flat later ih => rw [balance_flat flat, ih]

/-- The bracket stays open before the last mark. -/
theorem open_before_last (closes : Closes depth marks) {first second : List Mark}
    (parts : marks = first ++ second) (more : second ≠ []) : 0 < depth + 1 + balance first := by
  induction closes generalizing first with
  | last =>
    cases first with
    | nil => simp [balance]
    | cons mark rest =>
      obtain ⟨_, later⟩ := List.cons.inj parts
      exact absurd (List.append_eq_nil_iff.mp later.symm).2 more
  | opening deeper ih =>
    cases first with
    | nil => simp only [balance]; omega
    | cons mark rest =>
      obtain ⟨rfl, later⟩ := List.cons.inj parts
      have known := ih later
      simp only [balance]; omega
  | closing outer ih =>
    cases first with
    | nil => simp only [balance]; omega
    | cons mark rest =>
      obtain ⟨rfl, later⟩ := List.cons.inj parts
      have known := ih later
      simp only [balance]; omega
  | other flat later ih =>
    cases first with
    | nil => simp only [balance]; omega
    | cons mark rest =>
      obtain ⟨rfl, later⟩ := List.cons.inj parts
      rw [balance_flat flat]
      exact ih later

theorem of_flat (flat : ∀ mark ∈ marks, mark.isBracket = false) :
    Closes 0 (marks ++ [.closing]) := by
  induction marks with
  | nil => exact .last
  | cons mark rest ih =>
    have later := ih fun other member => flat other (by simp [member])
    exact .other (flat mark (by simp)) later

theorem ne_nil (closes : Closes depth marks) : marks ≠ [] := by
  cases closes <;> simp

/-- The last mark of a text that closes a bracket is the closing bracket itself. -/
theorem lastFrom_eq {before : Option Char} {text : Text}
    (closes : Closes depth (ofText before text)) : Text.lastFrom before text = some '}' := by
  induction text generalizing before depth with
  | nil => exact absurd rfl closes.ne_nil
  | cons c rest ih =>
    generalize mark : ofChar before c = first, later : ofText (some c) rest = others,
      found : ofText before (c :: rest) = marks at closes
    rw [ofText, mark, later] at found
    subst found
    cases closes with
    | last =>
      cases rest with
      | nil => rw [ofChar_eq mark]; rfl
      | cons next more => simp [ofText] at later
    | opening deeper => exact ih (later ▸ deeper)
    | closing outer => exact ih (later ▸ outer)
    | other flat more => exact ih (later ▸ more)

/-- A text may be marked group by group: its brackets keep what follows from being shielded. -/
theorem ofText_group {before : Option Char} {body : Text} (closes : Closes 0 (ofText (some '{') body))
    (free : isShielded before = false) (text : Text) :
    ofText before ('{' :: (body ++ text)) =
      Mark.opening :: (ofText (some '{') body ++ ofText (some '}') text) := by
  simp [ofText, Mark.ofText_append, closes.lastFrom_eq, ofChar, free]

end Closes
end Mark

/-- A bracketed group: an opening bracket, and a text that closes it with its last character. -/
def IsGroup (group : Text) : Prop :=
  ∃ body, group = '{' :: body ∧ Mark.Closes 0 (Mark.ofText (some '{') body)

/-- A text without brackets is a group once it stands between two that nothing shields. -/
theorem IsGroup.of_flat {inner : Text}
    (flat : ∀ mark ∈ Mark.ofText (some '{') inner, mark.isBracket = false)
    (free : isShielded (Text.lastFrom (some '{') inner) = false) :
    IsGroup ('{' :: (inner ++ ['}'])) := by
  refine ⟨inner ++ ['}'], rfl, ?_⟩
  have last : Mark.ofChar (Text.lastFrom (some '{') inner) '}' = .closing := by simp [Mark.ofChar, free]
  rw [Mark.ofText_append, Mark.ofText, Mark.ofText, last]
  exact .of_flat flat

theorem IsGroup.getLast?_eq {group : Text} (known : IsGroup group) : group.getLast? = some '}' := by
  obtain ⟨body, rfl, closes⟩ := known
  rw [← Text.lastFrom_eq_getLast? none (by simp)]
  exact closes.lastFrom_eq

end MarcPath
