import MarcPath.Proofs.Depth

/-! Checks that are made twice. A group, a literal, a head and a context are looked at before their own
readers look at them again, and an operator is known before a condition is put together with it. So
within a path the second check never finds anything, whatever the text is and however deep it stands. -/
namespace MarcPath

/-- The checks that an earlier one leaves nothing to find. -/
def Fault.backstops : List (Part × Fault) :=
  [(.condition, .unknownOperator), (.condition, .unbalanced), (.condition, .missingField),
    (.literal, .blank), (.field, .blank)]

/-- An error that no backstop gives. -/
def Error.Genuine (error : Error) : Prop :=
  ∀ violation, error = .invalid violation → (violation.part, violation.fault) ∉ Fault.backstops

theorem Fault.not_backstop_of_ordinary {part : Part} {fault : Fault}
    (ordinary : fault.isOrdinary part = true) : (part, fault) ∉ backstops := by
  rw [isOrdinary, Bool.and_eq_true, Bool.not_eq_true', ← Bool.not_eq_true] at ordinary
  intro member
  exact ordinary.2 (List.contains_iff_mem.mpr member)

theorem Layer.admits_genuine (text : Text) : Layer.Admits Error.Genuine text := by
  refine .of_numeral (fun part fault offending ordinary violation same => ?_) ?_ text
  · obtain rfl := Error.invalid.inj same
    exact Fault.not_backstop_of_ordinary ordinary
  · intro cause violation same
    cases same

namespace Path

variable {nesting : Nesting} {text : Text} {violation : Violation}

/-- No path, and so no path nested in one, is refused by a check that is made for the second time. -/
theorem no_backstop (failed : Path.parse nesting text = .error (.invalid violation)) :
    (violation.part, violation.fault) ∉ Fault.backstops := by
  have limit : (Part.path, Fault.tooDeep) ∉ Fault.backstops := by decide
  have limited (text : Text) : Error.Genuine (.invalid ⟨.path, .tooDeep, text⟩) := by
    intro violation same
    obtain rfl := Error.invalid.inj same
    exact limit
  have outcome : Outcome _ Error.Genuine (Path.parse nesting text) :=
    parse_flat_outcome (fun _ => limited) Layer.admits_genuine text
  rw [failed] at outcome
  exact outcome violation rfl

/-- The three operator characters spell no operator together, so the last one stands alone and the rest
of them is left to the reader of subfields. -/
theorem no_backstop_of_operator_run :
    ∃ violation, Path.parse .top "245{$a=?!}".toList = .error (.invalid violation) ∧
      violation = ⟨.subfield, .leftover, "$a=?".toList⟩ ∧
      (violation.part, violation.fault) ∉ Fault.backstops := by
  obtain ⟨violation, failed, same⟩ : ∃ violation,
      Path.parse .top "245{$a=?!}".toList = .error (.invalid violation) ∧
        violation = ⟨.subfield, .leftover, "$a=?".toList⟩ := ⟨_, rfl, rfl⟩
  exact ⟨violation, failed, same, no_backstop failed⟩

end Path
end MarcPath
