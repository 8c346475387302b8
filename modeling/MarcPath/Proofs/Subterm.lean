import MarcPath.Proofs.Plain
import MarcPath.Proofs.Resolved

/-! Paths without conditions as terms of a condition. Alone in a group, such a path is read as it is on its
own, unless a bar is the code of one of its subfields: the group is parted there. -/
namespace MarcPath

variable {ρ : Type} {nested : Text → Except Error ρ} {nesting : Nesting} {context base term : Text}

theorem Text.solid_group (solid : term.hasBlank = false) :
    Text.hasBlank ('{' :: (term ++ ['}'])) = false := by
  have brackets : isBlank '{' = false ∧ isBlank '}' = false := by decide
  have inner : List.any term isBlank = false := solid
  simp [Text.hasBlank, brackets, inner]

/-- A term that begins like a tag is asked for as it stands. -/
theorem Operand.request_absolute {c : Char} (letter : c.isAlphanum = true ∨ c = '.') (rest : Text) :
    Operand.request context (c :: rest) = .ok (.inr (c :: rest)) := by
  have other : c ≠ '\\' := by
    rintro rfl
    revert letter
    decide
  rw [request_cons other, if_neg (mt Reference.isMarker_iff.mp (Reference.not_mem_markers letter))]

/-- A text without structural characters is a term set of one term, and asks for its presence. -/
theorem Condition.parse_guarded {group : Text} (guarded : Text.Guarded none term) (nonempty : term ≠ []) :
    Condition.parse nested context group term = (Operand.parse nested context term).map fun right =>
      ⟨.absent context, .present, right, some term⟩ := by
  have whole := TermSet.parse_of_not_operator guarded.not_operator
  apply parse_presence guarded.flat _ _ nonempty
  · simp [whole, TermSet.terms]
  · rw [whole]
    rfl

/-- A term set that begins like a tag and has no operator asks for the presence of that path. -/
theorem Condition.parse_absolute {group : Text} (guarded : Text.Guarded none term)
    (begins : ∃ c rest, term = c :: rest ∧ (c.isAlphanum = true ∨ c = '.')) :
    Condition.parse nested context group term = (nested term).map fun value =>
      ⟨.absent context, .present, .path value term, some term⟩ := by
  obtain ⟨c, rest, rfl, letter⟩ := begins
  rw [parse_guarded guarded (by simp), Operand.parse_eq, Operand.request_absolute letter]
  change ((nested (c :: rest)).map (Operand.path · (c :: rest))).map _ = _
  cases nested (c :: rest) <;> rfl

/-- A text without structural characters makes a group, if it does not end in a shield. -/
theorem IsGroup.of_guarded (guarded : Text.Guarded none term)
    (ended : isShielded term.getLast? = false) (nonempty : term ≠ []) :
    IsGroup ('{' :: (term ++ ['}'])) := by
  apply IsGroup.of_flat
  · have unshielded : isShielded (some '{') = isShielded none := rfl
    rw [Mark.ofText_congr unshielded]
    exact guarded.flat
  · rwa [Text.lastFrom_eq_getLast? _ nonempty]

namespace Layer.Plain

variable {head : FieldHead} {segments : List Segment}

/-- Alone in a group, a path without a bar is its one condition. -/
theorem exists_group (plain : Plain term head segments) (room : nesting.depth ≤ nesting.maxDepth)
    (absent : '|' ∉ term) :
    ∃ value, Path.parse nesting term = .ok value ∧
      Group.parse (Path.parse nesting) context ('{' :: (term ++ ['}'])) =
        .ok ⟨⟨.absent context, .present, .path value term, some term⟩, []⟩ := by
  obtain ⟨value, found⟩ := plain.exists_parse room
  refine ⟨value, found, ?_⟩
  rw [Group.parse_single (Group.alternatives_eq_self absent),
    Condition.parse_absolute plain.guarded plain.exists_first, found]
  rfl

/-- A bar parts the group, and what stands before it ends in a subfield without a code. -/
theorem group_of_bar (plain : Plain term head segments) (room : nesting.depth ≤ nesting.maxDepth)
    (bar : '|' ∈ term) :
    Group.parse (Path.parse nesting) context ('{' :: (term ++ ['}'])) =
      violates .subfield .underTwo ['$'] := by
  obtain ⟨front, rest, rfl, absent, last, failed⟩ := plain.exists_of_bar bar
  have nonempty : front ≠ [] := by
    rintro rfl
    cases last
  have apart : Text.lastFrom none front ≠ some '\\' := by
    rw [Text.lastFrom_eq_getLast? _ nonempty, last]
    decide
  have begins : ∃ c rest, front = c :: rest ∧ (c.isAlphanum = true ∨ c = '.') := by
    obtain ⟨c, more, whole, letter⟩ := plain.exists_first
    cases front with
    | nil => exact absurd rfl nonempty
    | cons first others =>
      obtain ⟨rfl, -⟩ := List.cons.inj whole
      exact ⟨_, others, rfl, letter⟩
  rw [Group.parse_eq _ _ (Group.inner?_eq_some_iff.mpr rfl), Group.first_alternative absent apart rest,
    Condition.parse_absolute plain.guarded.of_append_left begins, failed nesting room]
  rfl

end Layer.Plain

namespace Path

variable {head : FieldHead} {plain : Path} {other : Nesting}

/-- A path without conditions, put in brackets behind a field, is the one condition of that field: it asks
for the presence of the path. But a bar that is a code parts the brackets in two, and then what stands
before it ends in a dollar without a code. -/
theorem subterm_of_bare (room : nesting.depth < nesting.maxDepth) (field : FieldHead.parse base = .ok head)
    (found : Path.parse other term = .ok plain) (solid : term.hasBlank = false) (bare : plain.Bare)
    (ended : isShielded term.getLast? = false) :
    ('|' ∉ term → ∃ value, Path.parse nesting.deeper term = .ok value ∧ (value == plain) = true ∧
      Path.parse nesting (base ++ '{' :: (term ++ ['}'])) =
        .ok (.mk ⟨⟨head, [⟨⟨.absent base, .present, .path value term, some term⟩, []⟩]⟩, [], nesting⟩)) ∧
    ('|' ∈ term → Path.parse nesting (base ++ '{' :: (term ++ ['}'])) =
      violates .subfield .underTwo ['$']) := by
  obtain ⟨-, read⟩ := parse_eq_ok_iff.mp found
  rw [Text.strip_eq_self solid] at read
  obtain ⟨segments, known⟩ := read.plain bare.1 bare.2
  have deeper : nesting.deeper.depth ≤ nesting.deeper.maxDepth := by
    simp only [Nesting.deeper]
    omega
  have group : IsGroup ('{' :: (term ++ ['}'])) := by
    obtain ⟨c, rest, begins, -⟩ := known.exists_first
    exact .of_guarded known.guarded ended (by simp [begins])
  rw [parse_append_group (by omega) field (Text.solid_group solid) group]
  constructor
  · intro absent
    obtain ⟨value, again, read⟩ := known.exists_group deeper absent
    have alike : (value.render == plain.render) = true :=
      beq_iff_eq.mpr (alike_of_parse found again).1
    refine ⟨value, again, alike, ?_⟩
    rw [read]
    rfl
  · intro bar
    rw [known.group_of_bar deeper bar]
    rfl

/-- The code is a bracket here, and an equals sign follows the next dollar. -/
theorem subterm_of_bare_of_bracket :
    ∃ plain value head, Path.parse .top "650[1]$\x7d/0$=".toList = .ok plain ∧ plain.Bare ∧
      FieldHead.parse "245_1".toList = .ok head ∧
      Path.parse Nesting.top.deeper "650[1]$\x7d/0$=".toList = .ok value ∧ (value == plain) = true ∧
      Path.parse .top ("245_1".toList ++ '{' :: ("650[1]$\x7d/0$=".toList ++ ['}'])) =
        .ok (.mk ⟨⟨head, [⟨⟨.absent "245_1".toList, .present,
          .path value "650[1]$\x7d/0$=".toList, some "650[1]$\x7d/0$=".toList⟩, []⟩]⟩, [], .top⟩) := by
  obtain ⟨plain, found, bare⟩ : ∃ plain,
      Path.parse .top "650[1]$\x7d/0$=".toList = .ok plain ∧ plain.Bare :=
    ⟨_, rfl, rfl, by decide⟩
  obtain ⟨head, field⟩ : ∃ head, FieldHead.parse "245_1".toList = .ok head := ⟨_, rfl⟩
  have room : Nesting.top.depth < Nesting.top.maxDepth := by decide
  obtain ⟨value, again, same, whole⟩ :=
    (subterm_of_bare room field found (by decide) bare (by decide)).1 (by decide)
  exact ⟨plain, value, head, found, bare, field, again, same, whole⟩

/-- The path stands on its own, but not in a group. -/
theorem no_subterm_of_bar :
    ∃ plain head, Path.parse .top "245$|".toList = .ok plain ∧ plain.Bare ∧
      Text.hasBlank "245$|".toList = false ∧ isShielded "245$|".toList.getLast? = false ∧
      FieldHead.parse "245".toList = .ok head ∧
      Path.parse .top "245\x7b245$|\x7d".toList = violates .subfield .underTwo ['$'] := by
  obtain ⟨plain, found, bare⟩ : ∃ plain, Path.parse .top "245$|".toList = .ok plain ∧ plain.Bare :=
    ⟨_, rfl, rfl, by decide⟩
  obtain ⟨head, field⟩ : ∃ head, FieldHead.parse "245".toList = .ok head := ⟨_, rfl⟩
  exact ⟨plain, head, found, bare, by decide, by decide, field, rfl⟩

end Path
end MarcPath
