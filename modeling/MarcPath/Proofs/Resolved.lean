import MarcPath.Proofs.Ask

/-! What the terms of a condition stand for. A relative term continues its context, from the last of its
markers on; any other path is read as it is written, and a literal is kept. This is said without the
readers of terms, so it holds them to the context in which a condition is read. -/
namespace MarcPath

variable {ρ : Type} {nested : Text → Except Error ρ} {context : Text}

namespace Reference

/-- The characters that a relative term begins with: those that introduce a part of a path. -/
def markers : List Char :=
  ['[', '/', '_', '$']

theorem isMarker_iff {c : Char} : isMarker c = true ↔ c ∈ markers := by
  simp [isMarker, markers, or_assoc]

/-- What a tag begins with is no marker. -/
theorem not_mem_markers {c : Char} (letter : c.isAlphanum = true ∨ c = '.') : c ∉ markers := by
  intro member
  simp only [markers, List.mem_cons, List.not_mem_nil, or_false] at member
  rcases member with rfl | rfl | rfl | rfl <;> revert letter <;> decide

/-- What a relative term keeps of its context: what stands before the last of its markers there, or all of
the context if it has none. -/
inductive Keeps (context : Text) (marker : Char) : (kept : Text) → Prop where
  | before {kept behind : Text} (last : context = kept ++ marker :: behind) (absent : marker ∉ behind) :
      Keeps context marker kept
  | whole (absent : marker ∉ context) : Keeps context marker context

variable {marker : Char} {kept rest : Text}

theorem resolve_of_absent (nonempty : context ≠ []) (absent : marker ∉ context) (rest : Text) :
    resolve context (marker :: rest) = .ok (context ++ marker :: rest) := by
  simp [resolve, nonempty, Text.beforeLast_eq_none_iff.mpr absent]

/-- What stands before the last marker of the context is kept. -/
theorem resolve_of_last (nonempty : kept ≠ []) (absent : marker ∉ rest) (term : Text) :
    resolve (kept ++ marker :: rest) (marker :: term) = .ok (kept ++ marker :: term) := by
  cases kept with
  | nil => exact absurd rfl nonempty
  | cons first kept =>
    have cut := Text.beforeLast_append (first :: kept) absent
    simp only [List.cons_append] at cut
    simp [resolve, cut]

/-- Every relative term has something to continue, for a context does not begin with a marker. -/
theorem exists_keeps {first : Char} (begins : context.head? = some first) (other : first ≠ marker)
    (term : Text) :
    ∃ kept, Keeps context marker kept ∧
      resolve context (marker :: term) = .ok (kept ++ marker :: term) := by
  obtain ⟨behind, rfl⟩ := List.head?_eq_some_iff.mp begins
  by_cases member : marker ∈ first :: behind
  · obtain ⟨kept, rest, last, absent⟩ := Text.exists_last member
    have nonempty : kept ≠ [] := by
      rintro rfl
      exact other (List.cons.inj last).1
    rw [last]
    exact ⟨kept, .before rfl absent, resolve_of_last nonempty absent term⟩
  · exact ⟨_, .whole member, resolve_of_absent (List.cons_ne_nil _ _) member term⟩

end Reference

/-- What a written term stands for in a context. -/
inductive Operand.StandsFor (nested : Text → Except Error ρ) (context : Text) :
    (term : Text) → Operand ρ → Prop where
  | literal (raw : Text) : StandsFor nested context ('\\' :: raw) (.literal ⟨raw⟩)
  | relative {marker : Char} {rest kept : Text} {value : ρ} (marks : marker ∈ Reference.markers)
      (keeps : Reference.Keeps context marker kept)
      (resolved : Reference.resolve context (marker :: rest) = .ok (kept ++ marker :: rest))
      (read : nested (kept ++ marker :: rest) = .ok value) :
      StandsFor nested context (marker :: rest) (.path value (marker :: rest))
  | absolute {first : Char} {rest : Text} {value : ρ} (path : first ≠ '\\')
      (plain : first ∉ Reference.markers) (read : nested (first :: rest) = .ok value) :
      StandsFor nested context (first :: rest) (.path value (first :: rest))

/-- A term on the left may be left out, and then stands for the context. -/
inductive Term.StandsFor (nested : Text → Except Error ρ) (context : Text) :
    (term : Text) → Term ρ → Prop where
  | absent : StandsFor nested context [] (.absent context)
  | given {term : Text} {operand : Operand ρ} (stands : operand.StandsFor nested context term) :
      StandsFor nested context term (.given operand)

/-- The terms of a condition are those of its term set, each as it stands in the context. -/
def Condition.ResolvedIn (nested : Text → Except Error ρ) (context : Text) (condition : Condition ρ) :
    Prop :=
  ∃ written, condition.source = some written ∧
    condition.left.StandsFor nested context (TermSet.parse written).terms.1 ∧
    condition.operator = (TermSet.parse written).operator.getD .present ∧
    condition.right.StandsFor nested context (TermSet.parse written).terms.2

/-- All conditions of a group are resolved in one context. -/
def Group.ResolvedIn (nested : Text → Except Error ρ) (context : Text) (group : Group ρ) : Prop :=
  ∀ condition ∈ group.conditions, condition.ResolvedIn nested context

section

variable {first : Char} (begins : context.head? = some first) (letter : first.isAlphanum = true ∨ first = '.')
include begins letter

theorem Operand.standsFor_of_parse {term : Text} {operand : Operand ρ} (nonempty : term ≠ [])
    (found : Operand.parse nested context term = .ok operand) :
    operand.StandsFor nested context term := by
  obtain ⟨c, rest, rfl⟩ := List.exists_cons_of_ne_nil nonempty
  by_cases backslash : c = '\\'
  · subst backslash
    obtain ⟨literal, read, rfl⟩ := map_eq_ok_iff.mp found
    obtain ⟨-, rfl⟩ := Literal.ofRaw_eq_ok_iff.mp read
    exact .literal rest
  · rw [parse_eq, request_cons backslash, bind_eq_ok_iff] at found
    obtain ⟨request, asked, answered⟩ := found
    by_cases marks : c ∈ Reference.markers
    · have other : first ≠ c := by
        rintro rfl
        exact Reference.not_mem_markers letter marks
      obtain ⟨kept, keeps, resolved⟩ := Reference.exists_keeps begins other rest
      rw [if_pos (Reference.isMarker_iff.mpr marks), resolved] at asked
      obtain rfl := Except.ok.inj asked
      obtain ⟨value, read, rfl⟩ := map_eq_ok_iff.mp answered
      exact .relative marks keeps resolved read
    · rw [if_neg (mt Reference.isMarker_iff.mp marks)] at asked
      obtain rfl := Except.ok.inj asked
      obtain ⟨value, read, rfl⟩ := map_eq_ok_iff.mp answered
      exact .absolute backslash marks read

theorem Term.standsFor_of_parse {written : Text} {term : Term ρ}
    (found : Term.parse nested context written = .ok term) : term.StandsFor nested context written := by
  unfold Term.parse at found
  by_cases empty : written = []
  · subst empty
    obtain rfl := Except.ok.inj found
    exact .absent
  · rw [if_neg (by simpa using empty)] at found
    obtain ⟨operand, read, rfl⟩ := map_eq_ok_iff.mp found
    exact .given (Operand.standsFor_of_parse begins letter empty read)

theorem Condition.Read.resolvedIn {written : Text} {condition : Condition ρ}
    (read : Read nested context written condition) : condition.ResolvedIn nested context :=
  ⟨written, read.source, Term.standsFor_of_parse begins letter read.left, read.operator.symm,
    Operand.standsFor_of_parse begins letter read.begun read.right⟩

theorem Group.resolvedIn_of_parse {text : Text} {group : Group ρ}
    (found : Group.parse nested context text = .ok group) : group.ResolvedIn nested context := by
  intro condition inside
  obtain ⟨written, read⟩ := exists_read found inside
  exact read.resolvedIn begins letter

end
end MarcPath
