import MarcPath.Proofs.Failure
import MarcPath.Proofs.RoundTrip

/-! How deep paths are nested. A nested path has no groups, so there is one level of nesting and no
more, and a limit that leaves room for it is never noticed. -/
namespace MarcPath.Path

/-- A path that stands in a condition of another, or in a condition of one that does. -/
inductive Inside : (inner outer : Path) → Prop where
  | direct {inner outer : Path} (member : inner ∈ outer.layer.paths) : Inside inner outer
  | deeper {inner middle outer : Path} (member : middle ∈ outer.layer.paths)
      (inside : Inside inner middle) : Inside inner outer

theorem Inside.trans {inner middle outer : Path} (first : Inside inner middle)
    (second : Inside middle outer) : Inside inner outer := by
  induction second with
  | direct member => exact .deeper member first
  | deeper member inside ih => exact .deeper member ih

/-- A path is a part of itself, and so is every path inside of it. -/
def IsPart (inner outer : Path) : Prop :=
  inner = outer ∨ Inside inner outer

theorem IsPart.trans {inner middle outer : Path} (first : IsPart inner middle)
    (second : IsPart middle outer) : IsPart inner outer := by
  rcases first with rfl | inside
  · exact second
  · rcases second with rfl | inside'
    · exact .inr inside
    · exact .inr (inside.trans inside')

/-- Neither the field of a path nor a subfield of it has any groups. -/
def Bare (path : Path) : Prop :=
  path.field.groups = [] ∧ ∀ subfield ∈ path.subfields, subfield.groups = []

variable {nesting : Nesting} {text : Text} {failure : Error → Prop} {value : Path → Prop}

theorem Bare.not_inside {inner outer : Path} (bare : outer.Bare) : ¬ Inside inner outer := by
  have none : outer.layer.paths = [] := by
    obtain ⟨field, subfields⟩ := bare
    rw [Layer.paths, Field.paths, show outer.layer.field.groups = [] from field]
    apply List.flatMap_eq_nil_iff.mpr
    intro subfield member
    rw [Subfield.paths, subfields subfield member]
    rfl
  intro inside
  cases inside with
  | direct member => simp [none] at member
  | deeper member inside => simp [none] at member

theorem parse_outcome
    (guarded : nesting.maxDepth < nesting.depth → failure (.invalid ⟨.path, .tooDeep, text⟩))
    (admits : Layer.Admits failure text.strip)
    (asked : ∀ text', Layer.Asks text.strip text' →
      Outcome value failure (Path.parse nesting.deeper text')) :
    Outcome (fun path => ∀ inner ∈ path.layer.paths, value inner) failure
      (Path.parse nesting text) := by
  rw [parse_eq]
  by_cases beyond : nesting.maxDepth < nesting.depth
  · rw [if_pos beyond]
    exact guarded beyond
  · rw [if_neg beyond]
    exact (Layer.parseStripped_outcome admits asked).map fun layer holds => holds

/-- A text that a layer asks for is read as a bare path, or fails of its own. -/
theorem parse_asked_outcome {asked : Text} (asks : Layer.Asks text asked)
    (guarded : nesting.maxDepth < nesting.deeper.depth → failure (.invalid ⟨.path, .tooDeep, asked⟩))
    (admits : Layer.Admits failure asked) :
    Outcome (fun path => Layer.Read (Path.parse nesting.deeper.deeper) nesting.deeper asked path.layer ∧
      path.Bare) failure (Path.parse nesting.deeper asked) := by
  have strip := Text.strip_eq_self asks.solid
  have outcome : Outcome (fun path => ∀ inner ∈ path.layer.paths, True) failure
      (Path.parse nesting.deeper asked) :=
    parse_outcome guarded (strip.symm ▸ admits) fun text' asks' =>
      absurd (strip ▸ asks') (Layer.not_asks asks.unbracketed)
  refine outcome.with_ok.mono fun path ⟨_, found⟩ => ?_
  obtain ⟨-, read⟩ := parse_eq_ok_iff.mp found
  rw [strip] at read
  exact ⟨read, read.groups_eq_nil asks.unbracketed⟩

/-- The nested paths of any text are bare, so the limit can only be hit at their level or above it. -/
theorem parse_flat_outcome
    (guarded : nesting.maxDepth ≤ nesting.depth → ∀ text, failure (.invalid ⟨.path, .tooDeep, text⟩))
    (admits : ∀ text, Layer.Admits failure text) (text : Text) :
    Outcome (fun path => ∀ inner ∈ path.layer.paths, inner.nesting = nesting.deeper ∧ inner.Bare)
      failure (Path.parse nesting text) := by
  refine parse_outcome (fun beyond => guarded (by omega) text) (admits _) fun asked asks => ?_
  have beyond (limit : nesting.maxDepth < nesting.deeper.depth) : nesting.maxDepth ≤ nesting.depth := by
    simp only [Nesting.deeper] at limit
    omega
  have outcome := parse_asked_outcome asks (fun limit => guarded (beyond limit) asked) (admits asked)
  exact outcome.mono fun path known => ⟨known.1.nesting, known.2⟩

/-- An error that is not about the limit. -/
def Shallow (error : Error) : Prop :=
  ∀ violation, error = .invalid violation → violation.fault ≠ .tooDeep

theorem admits_shallow (text : Text) : Layer.Admits Shallow text := by
  refine .of_numeral (fun part fault offending ordinary violation same deep => ?_) ?_ text
  · obtain rfl := Error.invalid.inj same
    simp only at deep
    subst deep
    simp [Fault.isOrdinary] at ordinary
  · intro cause violation same
    cases same

theorem parse_shallow (room : nesting.depth < nesting.maxDepth) (text : Text) :
    Outcome (fun path => ∀ inner ∈ path.layer.paths, inner.nesting = nesting.deeper ∧ inner.Bare)
      Shallow (Path.parse nesting text) :=
  parse_flat_outcome (fun full => by omega) admits_shallow text

theorem parse_withLimit {limit : Int} (room : nesting.depth < nesting.maxDepth)
    (room' : nesting.depth < limit) (text : Text) :
    Path.parse (nesting.withLimit limit) text =
      (Path.parse nesting text).map (mapNesting (Nesting.withLimit limit)) := by
  have never (reading reading' : Except Error Path) :
      Refines (fun _ => False) (mapNesting (Nesting.withLimit limit)) reading reading' →
        reading' = reading.map (mapNesting (Nesting.withLimit limit)) := by
    rintro (⟨_, _, excused⟩ | same)
    · exact excused.elim
    · exact same
  refine never _ _ (parse_refines_of_asks (by omega) (by simp only [Nesting.withLimit]; omega) ?_)
  intro asked asks
  refine parse_refines_of_asks (by simp only [Nesting.deeper]; omega)
    (by simp only [Nesting.withLimit, Nesting.deeper]; omega) ?_
  intro further asks'
  rw [Text.strip_eq_self asks.solid] at asks'
  exact absurd asks' (Layer.not_asks asks.unbracketed)

/-- What is read at one nesting is read at any other that has room for one more level. -/
theorem parse_of_room {other : Nesting} {path : Path} (room : other.depth < other.maxDepth)
    (found : Path.parse nesting text = .ok path) :
    ∃ again, Path.parse other text = .ok again := by
  by_cases le : nesting.levels ≤ other.levels
  · obtain ⟨moved, again⟩ := parse_of_levels le found
    exact ⟨_, again⟩
  · -- More than one level is left, and the second is the last that is ever needed.
    simp only [Nesting.levels] at le
    let limit := nesting.depth + 1
    have limited : Path.parse (nesting.withLimit limit) text = _ :=
      parse_withLimit (by omega) (by omega) text
    rw [found] at limited
    have fewer : (nesting.withLimit limit).levels ≤ other.levels := by
      simp only [Nesting.levels, Nesting.withLimit]
      omega
    obtain ⟨moved, again⟩ := parse_of_levels fewer limited
    exact ⟨_, again⟩

/-- With room for one more level, every path inside of another is one level deeper than that and has
no groups at all. The limit is never hit, and any limit that leaves the room gives the same. -/
theorem nesting_is_flat (room : nesting.depth + 1 ≤ nesting.maxDepth) (text : Text) :
    (∀ path, Path.parse nesting text = .ok path → ∀ inner, Inside inner path →
        inner.nesting = nesting.deeper ∧ inner.Bare) ∧
      (∀ violation, Path.parse nesting text = .error (.invalid violation) →
        violation.fault ≠ .tooDeep) ∧
      ∀ limit, nesting.depth + 1 ≤ limit →
        Path.parse (nesting.withLimit limit) text =
          (Path.parse nesting text).map (mapNesting (Nesting.withLimit limit)) := by
  have outcome := parse_shallow room text
  refine ⟨?_, ?_, fun limit room' => parse_withLimit room room' text⟩
  · intro path found inner inside
    rw [found] at outcome
    cases inside with
    | direct member => exact outcome inner member
    | deeper member inside => exact absurd inside (outcome _ member).2.not_inside
  · intro violation failed
    rw [failed] at outcome
    exact outcome violation rfl

theorem nesting_is_flat_of_comparison :
    ∃ path inner, Path.parse .top "245$a{/0=$b}".toList = .ok path ∧ Inside inner path ∧
      inner.nesting = Nesting.top.deeper ∧ inner.Bare := by
  obtain ⟨path, inner, found, member⟩ : ∃ path inner,
      Path.parse .top "245$a{/0=$b}".toList = .ok path ∧ inner ∈ path.layer.paths :=
    ⟨_, _, rfl, List.mem_cons_self⟩
  exact ⟨path, inner, found, .direct member,
    (nesting_is_flat (by decide) _).1 path found inner (.direct member)⟩

end MarcPath.Path
