import MarcPath.Proofs.Depth
import MarcPath.Proofs.Join

/-! Paths that are built step by step: read from a text, then given further subfields. Each text that is
added is read on its own, and the path is written in one piece. That piece reads back as the path, unless
a subfield whose code is a shield has come to stand in front of another. -/
namespace MarcPath

theorem Tail.parseAdded_eq_ok_iff {text : Text} {tail : Tail} :
    Tail.parseAdded text = .ok tail ↔
      2 ≤ text.length ∧ text.head? = some '$' ∧ Tail.parse text = .ok tail := by
  unfold Tail.parseAdded
  by_cases long : text.length < 2
  · rw [if_pos long]
    constructor
    · intro found
      cases found
    · rintro ⟨long', -⟩
      omega
  · rw [if_neg long]
    by_cases begins : text.head? = some '$'
    · rw [if_neg (by simp [begins])]
      exact ⟨fun found => ⟨by omega, begins, found⟩, fun found => found.2.2⟩
    · rw [if_pos (by simpa using begins)]
      constructor
      · intro found
        cases found
      · exact fun found => absurd found.2.1 begins

theorem Tail.groups_eq_nil_of_parseAdded {text : Text} {tail : Tail}
    (found : Tail.parseAdded text = .ok tail) : tail.groups = [] := by
  obtain ⟨-, begins, cut⟩ := Tail.parseAdded_eq_ok_iff.mp found
  obtain ⟨rest, rfl⟩ := List.head?_eq_some_iff.mp begins
  exact Tail.groups_eq_nil_of_dollar cut

/-- A text that is added puts no groups on the field. Its subfields are those of its segments. -/
theorem Additions.parts_of_parse {nesting : Nesting} {base text : Text} {additions : Additions Path}
    (found : Additions.parse nesting base text = .ok additions) :
    additions.groups = [] ∧ ∃ tail parts, Tail.parse text = .ok tail ∧
      List.mapM (Segment.subfields (Path.parse nesting.deeper) base) tail.segments = .ok parts ∧
      additions.subfields = parts.flatten := by
  obtain ⟨tail, cut, added⟩ := bind_eq_ok_iff.mp found
  obtain ⟨groups, parts, reads, same⟩ := Tail.additions_eq_ok_iff.mp added
  rw [Tail.groups_eq_nil_of_parseAdded cut] at groups
  have read := (Tail.parseAdded_eq_ok_iff.mp cut).2.2
  exact ⟨(Except.ok.inj groups).symm, tail, parts, read, reads, same⟩

namespace Segment

variable {ρ : Type} {nested : Text → Except Error ρ} {base : Text}

/-- No subfield is written with a second dollar behind a shield. -/
theorem subfields_ne_ok_of_joined {segment : Segment} {c : Char} {more : Text} (shield : isShield c = true)
    (token : segment.token = '$' :: c :: '$' :: more) (subfields : List (Subfield ρ)) :
    Segment.subfields nested base segment ≠ .ok subfields := by
  intro found
  have single : segment.isRange = false := by
    have dash : (c == '-') = false := by
      rw [beq_eq_false_iff_ne]
      rintro rfl
      cases shield
    have first : ('$' == '-') = false := rfl
    simp only [Segment.isRange, token, List.findIdx?_cons, dash, first]
    cases List.findIdx? (· == '-') more <;> simp
  obtain ⟨tokens, expanded, reads, -⟩ := of_subfields found
  simp only [Segment.tokens, single, Bool.false_eq_true, ↓reduceIte, Except.ok.injEq] at expanded
  subst expanded
  obtain ⟨subfield, -, read⟩ := exists_of_mem_items reads (List.mem_singleton_self _)
  have head := (subfield_eq_ok_iff.mp read).1
  obtain ⟨written, known⟩ := SubfieldHead.of_parse head
  rw [token, SubfieldHead.render_eq] at written
  simp only [List.cons.injEq] at written
  have inert := known.isInert '$' (by simp [written])
  cases inert

end Segment

namespace Subfield

variable {ρ : Type} {nested : Text → Except Error ρ} {base : Text} {subfield : Subfield ρ}

/-- A subfield that reads back and ends in a shield is a dollar and that shield. -/
theorem Composed.segment_of_shielded (composed : subfield.Composed nested base)
    (shielded : isShielded subfield.head.render.getLast? = true) :
    ∃ c, isShield c = true ∧ subfield.segment = ⟨['$', c], []⟩ := by
  obtain ⟨token, read, -⟩ := Segment.exists_token composed.read (List.mem_singleton_self _)
  obtain ⟨-, known⟩ := SubfieldHead.of_parse (Segment.subfield_eq_ok_iff.mp read).1
  obtain ⟨short, shield⟩ := known.rest_eq_nil shielded
  have bare : subfield.groups = [] := by
    by_contra more
    rw [composed.ended more] at shielded
    cases shielded
  exact ⟨subfield.head.code, shield, by rw [segment, SubfieldHead.render_eq, short, bare]; rfl⟩

end Subfield

namespace Layer

variable {ρ : Type} {nested : Text → Except Error ρ} {layer : Layer ρ}

/-- A subfield whose head ends in a shield stands in front of another. -/
def Joins (layer : Layer ρ) : Prop :=
  ∃ subfield ∈ layer.subfields.dropLast, isShielded subfield.head.render.getLast? = true

private theorem separated_iff {base : Text} {subfields : List (Subfield ρ)}
    (composed : ∀ subfield ∈ subfields, subfield.Composed nested base) :
    Tail.Separated (subfields.map Subfield.segment) ↔
      ∀ subfield ∈ subfields.dropLast, isShielded subfield.head.render.getLast? = false := by
  induction subfields with
  | nil => simp [Tail.Separated]
  | cons subfield rest ih =>
    have later := ih fun other member => composed other (by simp [member])
    have ended : subfield.segment.groups ≠ [] → isShielded subfield.segment.token.getLast? = false :=
      fun more => (composed subfield (by simp)).ended (by simpa [Subfield.segment] using more)
    rw [List.map_cons, Tail.Separated, later]
    cases rest with
    | nil => simpa using ended
    | cons next rest =>
      rw [List.dropLast_cons_cons, List.forall_mem_cons]
      refine and_congr_left fun _ => ⟨fun free => free (.inr (by simp)), fun free _ => free⟩

/-- Its tokens keep apart unless a layer made of parts that read back joins two subfields. -/
theorem Composed.separated_iff_not_joins (composed : layer.Composed nested) :
    Tail.Separated layer.tail.segments ↔ ¬ layer.Joins := by
  rw [tail, separated_iff composed.subfields, Joins]
  simp only [not_exists, not_and, Bool.not_eq_true]

/-- Subfields that read back may be added behind those there are. -/
theorem Composed.extend {additions : Additions ρ} (composed : layer.Composed nested)
    (bare : additions.groups = [])
    (added : ∀ subfield ∈ additions.subfields, subfield.Composed nested layer.field.head.render) :
    (layer.extend additions).Composed nested ∧ (layer.extend additions).field = layer.field := by
  have same : layer.field.attach additions.groups = layer.field := by
    rw [bare, Field.attach, List.append_nil]
  refine ⟨⟨?_, ?_⟩, same⟩
  · rw [Layer.extend, same]
    exact composed.field
  · intro subfield member
    rw [Layer.extend, same]
    rcases List.mem_append.mp member with member | member
    · exact composed.subfields subfield member
    · exact added subfield member

end Layer

namespace Path

variable {path grown : Path} {text : Text}

/-- Paths that are read from a text or made from such a path by adding texts without blanks. -/
inductive Grown : Path → Prop where
  | read {nesting : Nesting} {text : Text} {path : Path} (found : Path.parse nesting text = .ok path) :
      Grown path
  | add {path : Path} {text : Text} {next : Path} (earlier : Grown path)
      (solid : text.hasBlank = false) (added : path.addSubfields text = .ok next) : Grown next

/-- A path within the limit, all of whose parts read back. -/
structure Sound (path : Path) : Prop where
  room : path.nesting.depth ≤ path.nesting.maxDepth
  composed : path.layer.Composed (Path.parse path.nesting.deeper)

theorem Sound.of_parse {nesting : Nesting} (found : Path.parse nesting text = .ok path) : path.Sound := by
  obtain ⟨room, read⟩ := parse_eq_ok_iff.mp found
  obtain rfl : path.layer.nesting = nesting := read.nesting
  exact ⟨room, read.composed.1⟩

theorem addSubfields_eq_ok_iff : path.addSubfields text = .ok grown ↔
    ∃ additions, Additions.parse path.nesting path.field.head.render text = .ok additions ∧
      grown = .mk (path.layer.extend additions) := by
  rw [addSubfields, bind_eq_ok_iff]
  simp only [pure, Except.pure, Except.ok.injEq, eq_comm]

/-- Adding subfields leaves the field, the nesting and the subfields there are, and what it adds reads
back. -/
theorem Sound.add (sound : path.Sound) (solid : text.hasBlank = false)
    (added : path.addSubfields text = .ok grown) : grown.Sound := by
  obtain ⟨additions, found, rfl⟩ := addSubfields_eq_ok_iff.mp added
  obtain ⟨bare, tail, parts, cut, reads, same⟩ := Additions.parts_of_parse found
  obtain ⟨subfields, -⟩ := Tail.composed_of_parts cut solid reads
  exact ⟨sound.room, (sound.composed.extend bare (same ▸ subfields)).1⟩

theorem Grown.sound (grown : Grown path) : path.Sound := by
  induction grown with
  | read found => exact .of_parse found
  | add earlier solid added ih => exact ih.add solid added

variable {nesting : Nesting}

/-- A path that joins no subfields reads back as itself. -/
theorem Sound.parse_render (sound : path.Sound) (apart : ¬ path.layer.Joins) :
    Path.parse path.nesting path.render = .ok path := by
  have separated := sound.composed.separated_iff_not_joins.mpr apart
  have found := parse_of_composed sound.room sound.composed separated
  obtain ⟨layer⟩ := path
  exact found

/-- A path that joins subfields is written as a text that is not read at all. -/
theorem Sound.not_joins_of_parse {again : Path} (sound : path.Sound)
    (found : Path.parse nesting path.render = .ok again) : ¬ path.layer.Joins := by
  intro joins
  obtain ⟨groups, segments⟩ := sound.composed.wellFormed_tail
  have solid : path.render.strip = path.render := Text.strip_eq_self sound.composed.solid_render
  obtain ⟨-, read⟩ := parse_eq_ok_iff.mp found
  rw [solid] at read
  obtain ⟨tail, parts, cut, -, reads, -⟩ := read.parts
  rw [render, sound.composed.cut_render.2] at cut
  have joined : ¬ Tail.Separated path.layer.tail.segments := by
    rw [sound.composed.separated_iff_not_joins]
    exact not_not_intro joins
  have short : ∀ segment ∈ path.layer.tail.segments, isShielded segment.token.getLast? = true →
      ∃ c, isShield c = true ∧ segment = ⟨['$', c], []⟩ := by
    intro segment member shielded
    obtain ⟨subfield, inside, rfl⟩ := List.mem_map.mp member
    exact (sound.composed.subfields subfield inside).segment_of_shielded shielded
  obtain ⟨segment, member, c, more, shield, token⟩ :=
    Tail.exists_joined_token groups segments short joined cut
  obtain ⟨part, -, found⟩ := exists_of_mem_items reads member
  exact Segment.subfields_ne_ok_of_joined shield token part found

/-- A path that is read and then given subfields is written as a text that reads back, wherever one more
level of nesting is allowed, exactly if it joins no two subfields; and what is read back is equal to it
and has the same tree. -/
theorem reparse_grown (grown : Grown path) (room : nesting.depth < nesting.maxDepth) :
    ((∃ again, Path.parse nesting path.render = .ok again) ↔ ¬ path.layer.Joins) ∧
      ∀ again, Path.parse nesting path.render = .ok again →
        (again == path) = true ∧ again.tree = path.tree := by
  have sound := grown.sound
  refine ⟨⟨?_, ?_⟩, ?_⟩
  · rintro ⟨again, found⟩
    exact sound.not_joins_of_parse found
  · intro apart
    exact parse_of_room room (sound.parse_render apart)
  · intro again found
    have first := sound.parse_render (sound.not_joins_of_parse found)
    obtain ⟨written, tree⟩ := alike_of_parse first found
    have alike : (again.render == path.render) = true := beq_iff_eq.mpr written
    exact ⟨alike, tree⟩

theorem reparse_grown_of_range :
    ∃ path, Grown path ∧ path.render = "245$a$b{$c}$d$e".toList ∧
      ∃ again, Path.parse .top path.render = .ok again ∧ (again == path) = true ∧
        again.tree = path.tree := by
  obtain ⟨first, path, read, added, render⟩ : ∃ first path, Path.parse .top "245$a".toList = .ok first ∧
      first.addSubfields "$b{$c}$d-e".toList = .ok path ∧ path.render = "245$a$b{$c}$d$e".toList :=
    ⟨_, _, rfl, rfl, rfl⟩
  have grown : Grown path := .add (.read read) (by decide) added
  obtain ⟨again, found⟩ : ∃ again, Path.parse .top path.render = .ok again := by
    rw [render]
    exact ⟨_, rfl⟩
  exact ⟨path, grown, render, again, found, (reparse_grown grown (by decide)).2 again found⟩

/-- The code of the first subfield is a dollar here, which is added to by a second subfield. -/
theorem no_reparse_of_dollar_code :
    ∃ path, Grown path ∧ path.render = "245$$$a".toList ∧
      ∀ again, Path.parse .top path.render ≠ .ok again := by
  obtain ⟨first, path, read, added, render⟩ : ∃ first path, Path.parse .top "245$$".toList = .ok first ∧
      first.addSubfields "$a".toList = .ok path ∧ path.render = "245$$$a".toList :=
    ⟨_, _, rfl, rfl, rfl⟩
  refine ⟨path, .add (.read read) (by decide) added, render, ?_⟩
  rw [render]
  rintro again ⟨⟩

end Path
end MarcPath
