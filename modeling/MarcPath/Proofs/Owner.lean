import MarcPath.Proofs.Indicators

/-! The owner of a condition: a field, or a field and one subfield of it. What is written of it is the
context of the condition. A dollar, a bracket and a slash introduce one part of a head each and stand
nowhere else in it, unless one is the code of the subfield; so a relative term that begins with one of them
takes the place of the last such part and of all that follows it. -/
namespace MarcPath

/-- The last occurrence of a character is in the second part, if there is one. -/
theorem Text.beforeLast_append_or (mark : Char) (first second : Text) :
    beforeLast mark (first ++ second) =
      ((beforeLast mark second).map (first ++ ·)).or (beforeLast mark first) := by
  induction first with
  | nil => cases found : beforeLast mark second <;> simp [beforeLast, found]
  | cons c first ih =>
    rw [List.cons_append, beforeLast, beforeLast, ih]
    cases beforeLast mark second <;> simp

namespace Reference

/-- A term takes the place of what stands from the last marker of its context on, unless the context
begins there. -/
theorem resolve_eq {context : Text} {marker first : Char} (begins : context.head? = some first)
    (other : first ≠ marker) (rest : Text) :
    resolve context (marker :: rest) =
      .ok ((context.beforeLast marker).getD context ++ marker :: rest) := by
  have nonempty : context ≠ [] := by
    rintro rfl
    cases begins
  cases cut : context.beforeLast marker with
  | none => simp [resolve, nonempty, cut]
  | some kept =>
    cases kept with
    | nil =>
      obtain ⟨behind, rfl, -⟩ := Text.exists_of_beforeLast cut
      exact absurd (Option.some.inj begins).symm other
    | cons c kept => simp [resolve, nonempty, cut]

/-- The markers that introduce one part of a head each: a subfield, an index, a character span. -/
def partMarkers : List Char :=
  ['$', '[', '/']

/-- A marker of a part is not among the characters that the parts are written with. -/
theorem apart_of_partMarker {marker : Char} (marked : marker ∈ partMarkers) :
    ¬ Span.IsSpanChar marker ∧ marker ≠ ']' ∧ marker.isAlphanum = false ∧ marker ≠ '.' ∧
      marker ≠ '_' := by
  unfold Span.IsSpanChar
  simp only [partMarkers, List.mem_cons, List.not_mem_nil, or_false] at marked
  rcases marked with rfl | rfl | rfl <;> decide

end Reference

open Reference (partMarkers apart_of_partMarker)

variable {marker : Char}

/-- A span is found by the mark before it, and by no other character that spans are not written with. -/
theorem Span.beforeLast_renderAfter {mark : Char} {close : Text} {span : Option Span}
    (known : ∀ written ∈ span, written.WellFormed) (other : ¬ IsSpanChar marker)
    (apart : marker ∉ close) :
    Text.beforeLast marker (renderAfter [mark] close span) =
      if mark = marker then span.map fun _ => [] else none := by
  cases span with
  | none => simp [renderAfter, Text.beforeLast]
  | some written =>
    have absent : marker ∉ written.render ++ close := by
      simp [(known written rfl).not_mem other, apart]
    by_cases same : mark = marker
    · subst same
      simpa [renderAfter] using Text.beforeLast_append [] absent
    · have none : marker ∉ mark :: (written.render ++ close) := by
        simp only [List.mem_cons, not_or]
        exact ⟨Ne.symm same, absent⟩
      simpa [renderAfter, same] using Text.beforeLast_eq_none_iff.mpr none

namespace FieldHead

variable {head : FieldHead}

/-- What stands before the part of a field head that a marker introduces. -/
def before? (marker : Char) (head : FieldHead) : Option Text :=
  match marker with
  | '[' => head.index.map fun _ => head.tag
  | '/' => head.characters.map fun _ => head.stem
  | _ => none

private theorem beforeLast_selection (known : head.WellFormed) (marked : marker ∈ partMarkers) :
    head.selection.render.beforeLast marker =
      if '/' = marker then head.characters.map fun _ => [] else none := by
  obtain ⟨other, -, letter, -, underscore⟩ := apart_of_partMarker marked
  cases chosen : head.selection with
  | all => simp [characters, chosen, Selection.render, Text.beforeLast]
  | characters span =>
    have spans : ∀ written ∈ some span, written.WellFormed := by
      simpa [characters, chosen] using known.characters
    have found : Text.beforeLast marker (Span.renderAfter ['/'] [] (some span)) = _ :=
      Span.beforeLast_renderAfter spans other (by simp)
    simpa [characters, chosen, Selection.render, Span.renderAfter] using found
  | indicators codes =>
    have spelled := known.indicators codes (by simp [indicators, chosen])
    have absent : marker ∉ '_' :: codes := by
      intro member
      rcases List.mem_cons.mp member with same | member
      · exact underscore same
      · rcases isAlphanum_of_isIndicators spelled member with other | same
        · simp [other] at letter
        · exact underscore same
    simpa [characters, chosen, Selection.render] using Text.beforeLast_eq_none_iff.mpr absent

/-- The last place of a marker in a field head is where it introduces its part. -/
theorem WellFormed.beforeLast (known : head.WellFormed) (marked : marker ∈ partMarkers) :
    head.render.beforeLast marker = head.before? marker := by
  obtain ⟨other, close, letter, dot, -⟩ := apart_of_partMarker marked
  have tag : marker ∉ head.tag := by
    intro member
    rcases isAlphanum_of_isTag known.tag member with alphanum | same
    · simp [alphanum] at letter
    · exact dot same
  rw [render, Text.beforeLast_append_or, Text.beforeLast_append_or, beforeLast_selection known marked,
    Span.renderIndex, Span.beforeLast_renderAfter known.index other (by simpa using close),
    Text.beforeLast_eq_none_iff.mpr tag]
  simp only [partMarkers, List.mem_cons, List.not_mem_nil, or_false] at marked
  rcases marked with rfl | rfl | rfl
  · simp [before?]
  · simp [before?, Function.comp_def]
  · simp [before?, stem, Span.renderIndex, Function.comp_def]

end FieldHead

namespace SubfieldHead

variable {head : SubfieldHead}

/-- What stands before the part of a subfield head that a marker introduces. The dollar introduces all of
it. -/
def before? (marker : Char) (head : SubfieldHead) : Option Text :=
  match marker with
  | '$' => some []
  | '[' => head.index.map fun _ => ['$', head.code]
  | '/' => head.characters.map fun _ => '$' :: head.code :: Span.renderIndex head.index
  | _ => none

/-- The last place of a marker in a subfield head is where it introduces its part, unless it is the code. -/
theorem WellFormed.beforeLast (known : head.WellFormed) (marked : marker ∈ partMarkers)
    (apart : head.code ≠ marker) : head.render.beforeLast marker = head.before? marker := by
  obtain ⟨other, close, -⟩ := apart_of_partMarker marked
  have parts : head.render =
      ['$', head.code] ++ Span.renderIndex head.index ++ Span.renderCharacters head.characters := rfl
  rw [parts, Text.beforeLast_append_or, Text.beforeLast_append_or, Span.renderCharacters,
    Span.beforeLast_renderAfter known.characters other (by simp), Span.renderIndex,
    Span.beforeLast_renderAfter known.index other (by simpa using close)]
  simp only [partMarkers, List.mem_cons, List.not_mem_nil, or_false] at marked
  rcases marked with rfl | rfl | rfl
  · simp [before?, Text.beforeLast, apart]
  · simp [before?, Text.beforeLast, apart, Function.comp_def]
  · simp [before?, Text.beforeLast, apart, Span.renderIndex, Function.comp_def]

end SubfieldHead

/-- What a condition is attached to: a field, or one of the subfields behind it. -/
structure Owner where
  field : FieldHead
  subfield : Option SubfieldHead
  deriving Repr, DecidableEq

namespace Owner

/-- The text of an owner, without any conditions. It is the context of those attached to it. -/
def render (owner : Owner) : Text :=
  owner.field.render ++ owner.subfield.elim [] SubfieldHead.render

/-- What stands before the last part of an owner that a marker introduces: a part of the subfield if that
has one, otherwise a part of the field. -/
def before? (marker : Char) (owner : Owner) : Option Text :=
  ((owner.subfield.bind (·.before? marker)).map (owner.field.render ++ ·)).or
    (owner.field.before? marker)

/-- An owner whose heads the reader gives. -/
structure Legit (owner : Owner) : Prop where
  field : ∃ text, FieldHead.parse text = .ok owner.field
  subfield : ∀ head ∈ owner.subfield, ∃ text, SubfieldHead.parse text = .ok head

variable {owner : Owner}

theorem Legit.beforeLast (legit : owner.Legit) (marked : marker ∈ partMarkers)
    (apart : ∀ head ∈ owner.subfield, head.code ≠ marker) :
    owner.render.beforeLast marker = owner.before? marker := by
  obtain ⟨base, read⟩ := legit.field
  obtain ⟨-, field⟩ := FieldHead.of_parse read
  cases part : owner.subfield with
  | none => simp [render, before?, part, field.beforeLast marked]
  | some head =>
    obtain ⟨token, read⟩ := legit.subfield head part
    obtain ⟨-, subfield⟩ := SubfieldHead.of_parse read
    simp [render, before?, part, Text.beforeLast_append_or, field.beforeLast marked,
      subfield.beforeLast marked (apart head part)]

/-- A relative subfield, index or character span takes the place of the last part of its kind, of the
subfield if that has one or else of the field, and of all that follows. If there is none it is put
behind. -/
theorem resolve_part (legit : owner.Legit) (marked : marker ∈ partMarkers)
    (apart : ∀ head ∈ owner.subfield, head.code ≠ marker) (rest : Text) :
    Reference.resolve owner.render (marker :: rest) =
      .ok ((owner.before? marker).getD owner.render ++ marker :: rest) := by
  obtain ⟨base, read⟩ := legit.field
  obtain ⟨c, later, begins, letter⟩ := (FieldHead.of_parse read).2.exists_first
  have first : owner.render.head? = some c := by simp [render, begins]
  have other : c ≠ marker := by
    rintro rfl
    obtain ⟨-, -, plain, dot, -⟩ := apart_of_partMarker marked
    rcases letter with alphanum | same
    · simp [alphanum] at plain
    · exact dot same
  rw [Reference.resolve_eq first other, legit.beforeLast marked apart]

/-- The code is the bracket that closes an index, and both heads have an index and a character span. -/
theorem resolve_part_of_bracket :
    ∃ owner : Owner, owner.Legit ∧ owner.render = "650[0]/1-3$][1-#]/2".toList ∧
      '[' ∈ partMarkers ∧ (∀ head ∈ owner.subfield, head.code ≠ '[') ∧
      Reference.resolve owner.render "[#]".toList = .ok "650[0]/1-3$][#]".toList := by
  let owner : Owner :=
    ⟨⟨"650".toList, some ⟨"0".toList, none⟩, .characters ⟨"1".toList, some "3".toList⟩⟩,
      some ⟨']', some ⟨"1".toList, some "#".toList⟩, some ⟨"2".toList, none⟩⟩⟩
  have field : FieldHead.parse "650[0]/1-3".toList = .ok owner.field := rfl
  have subfield : ∀ head ∈ owner.subfield, SubfieldHead.parse "$][1-#]/2".toList = .ok head := by
    rintro head ⟨⟩
    rfl
  have legit : owner.Legit := ⟨⟨_, field⟩, fun head member => ⟨_, subfield head member⟩⟩
  have marked : '[' ∈ partMarkers := by decide
  have apart : ∀ head ∈ owner.subfield, head.code ≠ '[' := by
    rintro head ⟨⟩
    decide
  exact ⟨owner, legit, rfl, marked, apart, resolve_part legit marked apart "#]".toList⟩

end Owner
end MarcPath
