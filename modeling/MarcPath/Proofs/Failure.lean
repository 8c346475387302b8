import MarcPath.Path.Induction
import MarcPath.Proofs.Misread
import MarcPath.Proofs.Nested

/-! How the reading of a layer ends, once it is known how the reading of its nested paths does. What
it adds of its own are the errors that heads lead to and rules that the text breaks; a part of the text
is reported with each. -/
namespace MarcPath

variable {ρ : Type} {nested : Text → Except Error ρ} {value : ρ → Prop} {failure : Error → Prop}
  {context : Text}

/-- A term of a path always stands for something. -/
theorem Operand.exists_request {term : Text} (begun : context ≠ []) (nonempty : term ≠ [])
    (solid : term.hasBlank = false) : ∃ request, Operand.request context term = .ok request := by
  unfold Operand.request
  split
  · rename_i raw
    rw [Text.hasBlank, List.any_cons, Bool.or_eq_false_iff, ← Text.hasBlank] at solid
    exact ⟨.inl ⟨raw⟩, by rw [Literal.ofRaw_eq_ok_iff.mpr ⟨solid.2, rfl⟩]; rfl⟩
  · split
    · cases term with
      | nil => exact absurd rfl nonempty
      | cons marker rest =>
        have begins : context.isEmpty = false := by simpa using begun
        simp only [Reference.resolve, begins, Bool.false_eq_true, ↓reduceIte]
        split
        · exact ⟨_, rfl⟩
        · exact ⟨_, rfl⟩
    · exact ⟨_, rfl⟩

theorem Operand.parse_outcome {term : Text} (begun : context ≠ []) (nonempty : term ≠ [])
    (solid : term.hasBlank = false)
    (asked : ∀ text, Operand.Asks context term text → Outcome value failure (nested text)) :
    Outcome (fun operand => ∀ path ∈ operand.paths, value path) failure
      (Operand.parse nested context term) := by
  obtain ⟨request, known⟩ := exists_request begun nonempty solid
  rw [Operand.parse_eq, known]
  cases request with
  | inl literal => simp [answer, bind, Except.bind, Outcome, Operand.paths]
  | inr text => exact (asked text known).map fun path holds => by simpa [Operand.paths] using holds

theorem Term.parse_outcome {term : Text} (begun : context ≠ []) (solid : term.hasBlank = false)
    (asked : ∀ text, term ≠ [] → Operand.Asks context term text →
      Outcome value failure (nested text)) :
    Outcome (fun term => ∀ path ∈ term.paths, value path) failure
      (Term.parse nested context term) := by
  unfold Term.parse
  split
  · simp [Outcome, Term.paths]
  · rename_i given
    have nonempty : term ≠ [] := by simpa using given
    exact (Operand.parse_outcome begun nonempty solid fun text => asked text nonempty).map
      fun operand holds => holds

section

variable {whole : Text} (own : ∀ part fault offending, Fault.isOrdinary part fault = true →
  offending <:+: whole → failure (.invalid ⟨part, fault, offending⟩))
include own

theorem Condition.parse_outcome {group termSet : Text} (begun : context ≠ [])
    (inside : group <:+: whole) (part : termSet <:+: group) (solid : termSet.hasBlank = false)
    (asked : ∀ text, Condition.Asks context termSet text → Outcome value failure (nested text)) :
    Outcome (fun condition => ∀ path ∈ condition.paths, value path) failure
      (Condition.parse nested context group termSet) := by
  rw [Condition.parse_eq]
  split
  · exact own _ _ _ rfl inside
  · split
    · apply own _ _ _ rfl
      split
      · exact inside
      · exact part.trans inside
    · rename_i flat given
      have unbracketed := Text.unbracketed_of_any flat
      have nonempty : (TermSet.parse termSet).terms.2 ≠ [] := by simpa using given
      have solidTerm (term : Text) (member : term = (TermSet.parse termSet).terms.1 ∨
          term = (TermSet.parse termSet).terms.2) : term.hasBlank = false := by
        rcases TermSet.term_cases member with inside | ⟨front, whole, -⟩
        · exact Text.hasBlank_of_infix inside.isInfix solid
        · exact Text.hasBlank_of_infix ⟨front, [], by simpa using whole⟩ solid
      have left := Term.parse_outcome begun (solidTerm _ (.inl rfl)) fun text nonempty asks =>
        asked text ⟨unbracketed, _, nonempty, .inl rfl, asks⟩
      have right := Operand.parse_outcome begun nonempty (solidTerm _ (.inr rfl)) fun text asks =>
        asked text ⟨unbracketed, _, nonempty, .inr rfl, asks⟩
      refine left.bind fun left holds => right.bind fun right holds' => ?_
      intro path member
      exact (List.mem_append.mp member).elim (holds path) (holds' path)

omit own in
theorem Group.exists_inner {group : Text} (known : IsGroup group) :
    ∃ inner, Group.inner? group = some inner := by
  have ends := known.getLast?_eq
  obtain ⟨body, rfl, closes⟩ := known
  cases body with
  | nil => exact absurd rfl closes.ne_nil
  | cons c rest =>
    rw [List.getLast?_cons_cons] at ends
    exact ⟨(c :: rest).dropLast, by simp [Group.inner?, ends]⟩

theorem Group.parse_outcome {group : Text} (begun : context ≠ []) (known : IsGroup group)
    (within : group <:+: whole) (solid : group.hasBlank = false)
    (asked : ∀ text, Group.Asks context group text → Outcome value failure (nested text)) :
    Outcome (fun group => ∀ path ∈ group.paths, value path) failure
      (Group.parse nested context group) := by
  obtain ⟨inner, cut⟩ := Group.exists_inner known
  rw [Group.parse_eq group inner cut]
  have inside : inner <:+: group := ⟨['{'], ['}'], by rw [Group.inner?_eq_some_iff.mp cut]; simp⟩
  have conditions : ∀ termSet ∈ (Group.alternatives inner).1 :: (Group.alternatives inner).2,
      Outcome (fun condition => ∀ path ∈ condition.paths, value path) failure
        (Condition.parse nested context group termSet) := by
    intro termSet member
    have part := (Group.infix_of_mem_alternatives member).trans inside
    exact Condition.parse_outcome own begun within part (Text.hasBlank_of_infix part solid)
      fun text asks => asked text ⟨inner, cut, termSet, member, asks⟩
  have first := conditions _ List.mem_cons_self
  have others := Outcome.mapM fun termSet member => conditions termSet (List.mem_cons_of_mem _ member)
  refine first.bind fun first holds => others.bind fun others all => ?_
  intro path member
  rcases List.mem_append.mp member with member | member
  · exact holds path member
  · obtain ⟨condition, source, member⟩ := List.mem_flatMap.mp member
    exact all condition source path member

omit own in
/-- Of a token that is a range, all but the dollar is reported. -/
theorem Segment.tokens_outcome (segment : Segment) :
    Outcome (fun _ => True) (Misread segment.token) segment.tokens := by
  have range : segment.token.drop 1 <:+: segment.token := (List.drop_suffix _ _).isInfix
  unfold Segment.tokens
  split
  · unfold expandRange
    split
    · split
      · trivial
      · rename_i same _
        exact Misread.violates_outcome (same ▸ range) rfl
    · exact Misread.violates_outcome range rfl
  · trivial

omit own in
/-- A token that a range stands for names its subfield, so only the token of a segment can fail. -/
theorem Segment.token_outcome {segment : Segment} {tokens : List Text} {token : Text}
    (expanded : segment.tokens = .ok tokens) (inside : token ∈ tokens)
    (solid : token.hasBlank = false) :
    Outcome (fun _ => True) (Misread segment.token) (SubfieldHead.parse token) := by
  rcases Segment.mem_tokens expanded inside with ⟨-, rfl⟩ | ⟨code, letter, rfl⟩
  · exact SubfieldHead.parse_outcome solid
  · rw [SubfieldHead.parse_code letter]
    trivial

theorem Segment.subfield_outcome {base token : Text} {groups : List Text} (begun : base ≠ [])
    (named : Outcome (fun _ => True) failure (SubfieldHead.parse token))
    (known : ∀ group ∈ groups, IsGroup group ∧ group <:+: whole ∧ group.hasBlank = false)
    (asked : ∀ head, SubfieldHead.parse token = .ok head → ∀ group ∈ groups, ∀ text,
      Group.Asks (base ++ head.render) group text → Outcome value failure (nested text)) :
    Outcome (fun subfield => ∀ path ∈ subfield.paths, value path) failure
      (Segment.subfield nested base groups token) := by
  refine named.with_ok.bind fun head ⟨_, parsed⟩ => ?_
  have attached := Outcome.mapM fun group member =>
    have ⟨group', within, solid⟩ := known group member
    Group.parse_outcome own (by simp [begun]) group' within solid (asked head parsed group member)
  apply attached.bind
  intro groups all path member
  obtain ⟨group, source, member⟩ := List.mem_flatMap.mp member
  exact all group source path member

theorem Tail.additions_outcome {base : Text} {tail : Tail} (begun : base ≠ [])
    (known : ∀ group, tail.Holds group → IsGroup group ∧ group <:+: whole ∧ group.hasBlank = false)
    (solid : ∀ segment ∈ tail.segments, ∀ tokens, segment.tokens = .ok tokens → ∀ token ∈ tokens,
      token.hasBlank = false)
    (read : ∀ segment ∈ tail.segments, ∀ error, Misread segment.token error → failure error)
    (asked : ∀ context group, tail.Attaches base context group → ∀ text,
      Group.Asks context group text → Outcome value failure (nested text)) :
    Outcome (fun additions => (∀ path ∈ additions.groups.flatMap Group.paths, value path) ∧
        ∀ path ∈ additions.subfields.flatMap Subfield.paths, value path) failure
      (tail.additions nested base) := by
  have groups := Outcome.mapM fun group member =>
    have ⟨group', within, solid⟩ := known group (.inl member)
    Group.parse_outcome own begun group' within solid (asked base group (.field member))
  have segments : ∀ segment ∈ tail.segments,
      Outcome (fun part => ∀ subfield ∈ part, ∀ path ∈ subfield.paths, value path) failure
        (Segment.subfields nested base segment) := by
    intro segment source
    have misread := read segment source
    refine ((Segment.tokens_outcome segment).imp misread).with_ok.bind fun tokens ⟨_, expanded⟩ => ?_
    apply Outcome.mapM
    intro token inside
    have named := Segment.token_outcome expanded inside (solid segment source tokens expanded token inside)
    exact Segment.subfield_outcome own begun (named.imp misread)
      (fun group member => known group (.inr ⟨segment, source, member⟩))
      fun head parsed group member => asked _ group (.subfield source expanded inside parsed member)
  refine groups.bind fun groups all => (Outcome.mapM segments).bind fun parts all' => ?_
  constructor
  · intro path member
    obtain ⟨group, source, member⟩ := List.mem_flatMap.mp member
    exact all group source path member
  · intro path member
    obtain ⟨subfield, inside, member⟩ := List.mem_flatMap.mp member
    obtain ⟨part, source, inside⟩ := List.mem_flatten.mp inside
    exact all' part source subfield inside path member

omit own in
private theorem failed_of_bind {reading : Except (Part × Fault) Tail.Pending} {cause : Part × Fault}
    {next : Tail.Pending → Tail.Pending}
    (failed : (do return next (← reading)) = Except.error cause) : reading = .error cause := by
  cases reading with
  | error error => exact failed
  | ok result => cases failed

omit own in
/-- A tail has unbalanced brackets, or something in it stands before the first dollar. -/
theorem Tail.isOrdinary_of_read {inToken : Bool} {depth : Nat} {marks : List Mark}
    {cause : Part × Fault} (failed : Tail.read inToken depth marks = .error cause) :
    Fault.isOrdinary cause.1 cause.2 = true := by
  fun_induction Tail.read inToken depth marks with
  | case1 => cases failed
  | case2 inToken rest ih => exact ih (failed_of_bind failed)
  | case3 => obtain rfl := Except.error.inj failed; rfl
  | case4 inToken rest ih => exact ih (failed_of_bind failed)
  | case5 c rest ih => exact ih (failed_of_bind failed)
  | case6 => obtain rfl := Except.error.inj failed; rfl
  | case7 => obtain rfl := Except.error.inj failed; rfl
  | case8 inToken depth mark rest ih => exact ih (failed_of_bind failed)

theorem Tail.parse_outcome {text : Text} (inside : text <:+: whole) :
    Outcome (fun _ => True) failure (Tail.parse text) := by
  unfold Tail.parse
  split
  · trivial
  · rename_i part fault failed
    exact own part fault text (Tail.isOrdinary_of_read failed) inside

theorem Layer.cut_outcome (read : ∀ error, Misread (headText whole) error → failure error) :
    Outcome (fun _ => True) failure (Layer.cut whole) := by
  have broken (part : Part) (fault : Fault) (ordinary : fault.isOrdinary part = true) :
      failure (.invalid ⟨part, fault, whole⟩) := own part fault whole ordinary List.infix_rfl
  unfold Layer.cut
  split
  · exact broken _ _ rfl
  · split
    · exact broken _ _ rfl
    · split
      · exact broken _ _ rfl
      · split
        · exact broken _ _ rfl
        · rename_i solid _
          have front : (headText whole).hasBlank = false :=
            Text.hasBlank_of_infix (List.takeWhile_prefix _).isInfix (by simpa using solid)
          apply ((FieldHead.parse_outcome front).imp read).bind
          intro head _
          have rest : tailText whole <:+: whole := (List.dropWhile_suffix _).isInfix
          exact (Tail.parse_outcome own rest).bind fun tail _ => trivial

end

/-- Whatever a text can lead to by its heads or by breaking a rule is a failure of this kind. -/
structure Layer.Admits (failure : Error → Prop) (text : Text) : Prop where
  own : ∀ part fault offending, Fault.isOrdinary part fault = true → offending <:+: text →
    failure (.invalid ⟨part, fault, offending⟩)
  head : ∀ error, Misread (headText text) error → failure error
  tokens : ∀ head tail, cut text = .ok (head, tail) → ∀ segment ∈ tail.segments,
    ∀ error, Misread segment.token error → failure error

/-- Where every numeral may fail, no text has to be looked at. -/
theorem Layer.Admits.of_numeral
    (own : ∀ part fault offending, Fault.isOrdinary part fault = true →
      failure (.invalid ⟨part, fault, offending⟩))
    (numeral : ∀ cause, failure (.numeral cause)) (text : Text) : Layer.Admits failure text := by
  have misread (text : Text) (error : Error) (misread : Misread text error) : failure error := by
    cases misread with
    | invalid inside ordinary => exact own _ _ _ ordinary
    | numeral cause long => exact numeral cause
  exact ⟨fun part fault offending ordinary _ => own part fault offending ordinary, misread _,
    fun _ _ _ segment _ => misread segment.token⟩

/-- A layer fails as its heads or its nested paths fail, or because the text breaks a rule. -/
theorem Layer.parseStripped_outcome {nesting : Nesting} {text : Text} (admits : Admits failure text)
    (asked : ∀ text', Layer.Asks text text' → Outcome value failure (nested text')) :
    Outcome (fun layer => ∀ path ∈ layer.paths, value path) failure
      (Layer.parseStripped nested nesting text) := by
  obtain ⟨own, head, tokens⟩ := admits
  rw [Layer.parseStripped_eq]
  refine (Layer.cut_outcome own head).with_ok.bind fun (field, tail) ⟨_, known⟩ => ?_
  obtain ⟨-, solid, read, rest⟩ := Layer.cut_eq_ok_iff.mp known
  have begun : field.render ≠ [] := by
    intro none
    have long := FieldHead.length_of_parse read
    rw [← (FieldHead.of_parse read).1, none] at long
    simp at long
  have groups (group : Text) (holds : tail.Holds group) :
      IsGroup group ∧ group <:+: text ∧ group.hasBlank = false := by
    have within := infix_of_holds known holds
    exact ⟨Tail.isGroup_of_holds rest holds, within, Text.hasBlank_of_infix within solid⟩
  have outcome := Tail.additions_outcome own begun groups
    (fun segment source expanded same token inside => solid_of_token known source same inside)
    (tokens field tail known) fun context group attached text asks =>
      asked text (.group known attached asks)
  refine outcome.map fun additions ⟨field, subfields⟩ => ?_
  intro path member
  exact (List.mem_append.mp member).elim (field path) (subfields path)

end MarcPath
