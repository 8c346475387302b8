import MarcPath.Proofs.Segment

/-! Layers as they are read. Written again, a layer is a text that reads back as the same layer: its
brackets and dollars mean what they meant, and its groups are read in the same contexts. -/
namespace MarcPath

variable {ρ : Type} {nested : Text → Except Error ρ}

namespace Tail

/-- A tail that is written begins like a tail. -/
theorem render_begins {tail : Tail} (groups : ∀ group ∈ tail.groups, IsGroup group)
    (segments : ∀ segment ∈ tail.segments, segment.WellFormed) :
    tail.render = [] ∨ ∃ c rest, tail.render = c :: rest ∧ Layer.startsTail c = true := by
  rcases tail with ⟨_ | ⟨group, others⟩, segments'⟩
  · cases segments' with
    | nil => exact .inl rfl
    | cons segment rest =>
      obtain ⟨body, token, -⟩ := (segments segment (by simp)).token
      exact .inr ⟨'$', _, by simp only [render, List.flatten_nil, List.nil_append, List.flatMap_cons,
        Segment.render, token, List.cons_append]; rfl, rfl⟩
  · obtain ⟨body, rfl, -⟩ := groups group (by simp)
    exact .inr ⟨'{', _, by simp only [render, List.flatten_cons, List.cons_append]; rfl, rfl⟩

theorem additions_eq_ok_iff {base : Text} {tail : Tail} {additions : Additions ρ} :
    tail.additions nested base = .ok additions ↔
      List.mapM (Group.parse nested base) tail.groups = .ok additions.groups ∧
        ∃ parts, List.mapM (Segment.subfields nested base) tail.segments = .ok parts ∧
          additions.subfields = parts.flatten := by
  simp only [Tail.additions, bind_eq_ok_iff]
  constructor
  · rintro ⟨groups, attached, parts, reads, same⟩
    obtain rfl := Except.ok.inj same
    exact ⟨attached, parts, reads, rfl⟩
  · rintro ⟨attached, parts, reads, same⟩
    exact ⟨_, attached, parts, reads, by rw [← same]; rfl⟩

/-- Segments that end in no shield may stand in front of any others. -/
theorem Separated.append {first second : List Segment}
    (ends : ∀ segment ∈ first, isShielded segment.token.getLast? = false)
    (separated : Separated second) : Separated (first ++ second) := by
  induction first with
  | nil => exact separated
  | cons segment rest ih =>
    exact ⟨fun _ => ends segment (by simp), ih fun other member => ends other (by simp [member])⟩

end Tail

namespace Segment

variable {base : Text} {segment : Segment} {subfields : List (Subfield ρ)} {subfield : Subfield ρ}

/-- Where a subfield of a segment comes from: the token of the segment, or one of the letters and
digits that a range stands for. -/
theorem exists_token (found : Segment.subfields nested base segment = .ok subfields)
    (member : subfield ∈ subfields) :
    ∃ token, Segment.subfield nested base segment.groups token = .ok subfield ∧
      ((segment.isRange = false ∧ token = segment.token) ∨
        ∃ code, code.isAlphanum = true ∧ token = ['$', code]) := by
  obtain ⟨tokens, expanded, reads, -⟩ := of_subfields found
  obtain ⟨token, inside, read⟩ := exists_of_mem_mapM reads member
  exact ⟨token, read, mem_tokens expanded inside⟩

theorem wellFormed_segment (known : segment.WellFormed)
    (found : Segment.subfields nested base segment = .ok subfields) (member : subfield ∈ subfields) :
    subfield.segment.WellFormed := by
  obtain ⟨token, read, origin⟩ := exists_token found member
  rw [segment_of_subfield read]
  rcases origin with ⟨-, rfl⟩ | ⟨code, -, rfl⟩
  · exact known
  · refine ⟨⟨[code], rfl, ?_⟩, known.groups⟩
    simp [Mark.ofText, Mark.ofChar, isShielded, isShield, Mark.isPlain]

theorem subfields_segment_of_mem (found : Segment.subfields nested base segment = .ok subfields)
    (member : subfield ∈ subfields) :
    Segment.subfields nested base subfield.segment = .ok [subfield] := by
  obtain ⟨token, read, origin⟩ := exists_token found member
  apply subfields_segment read
  rw [segment_of_subfield read]
  rcases origin with ⟨single, rfl⟩ | ⟨code, -, rfl⟩
  · exact single
  · exact isRange_pair code _

/-- The characters of a subfield are those of its segment, and letters and digits. -/
theorem mem_render_segment (found : Segment.subfields nested base segment = .ok subfields)
    (member : subfield ∈ subfields) {c : Char} (inside : c ∈ subfield.render) :
    c ∈ segment.render ∨ c.isAlphanum = true ∨ c = '$' := by
  obtain ⟨token, read, origin⟩ := exists_token found member
  rw [← Subfield.render_segment, segment_of_subfield read] at inside
  rcases origin with ⟨-, rfl⟩ | ⟨code, letter, rfl⟩
  · exact .inl inside
  · rcases List.mem_append.mp inside with inside | inside
    · rcases List.mem_cons.mp inside with rfl | inside
      · exact .inr (.inr rfl)
      · rw [List.mem_singleton] at inside
        exact .inr (.inl (inside ▸ letter))
    · exact .inl (List.mem_append_right _ inside)

/-- Segments that are parted when they are read are separated when they are written. -/
theorem separated_of_parted {segments : List Segment} {parts : List (List (Subfield ρ))}
    (reads : List.Forall₂ (fun segment part => Segment.subfields nested base segment = .ok part)
      segments parts) (parted : Tail.Parted segments) :
    Tail.Separated (parts.flatten.map Subfield.segment) := by
  induction reads with
  | nil => trivial
  | @cons segment part rest parts read reads ih =>
    obtain ⟨last, parted⟩ := parted
    obtain ⟨tokens, expanded, each, same⟩ := of_subfields read
    rw [List.flatten_cons, List.map_append]
    by_cases single : segment.isRange = false
    · -- The token is the one that was read, so what follows it is what followed it there.
      simp only [Segment.tokens, single, Bool.false_eq_true, ↓reduceIte, Except.ok.injEq] at expanded
      subst expanded
      rw [same, List.map_singleton, List.singleton_append]
      refine ⟨fun more => ?_, ih parted⟩
      by_contra shielded
      rw [Bool.not_eq_false] at shielded
      obtain ⟨subfield, rfl, -⟩ := List.map_eq_singleton_iff.mp same
      have token := (subfield_eq_ok_iff.mp
        (List.forall₂_cons.mp (mapM_eq_ok_iff.mp each)).1).1
      obtain ⟨written, known⟩ := SubfieldHead.of_parse token
      rw [← written] at shielded
      obtain ⟨short, shield⟩ := known.rest_eq_nil shielded
      have alone := last subfield.head.code
        (by rw [← written, SubfieldHead.render_eq, short]) shield
      obtain ⟨none, rfl⟩ := alone
      cases reads
      simp [none] at more
    · refine Tail.Separated.append ?_ (ih parted)
      intro other member
      rw [same] at member
      obtain ⟨token, inside, rfl⟩ := List.mem_map.mp member
      rcases mem_tokens expanded inside with ⟨ranged, -⟩ | ⟨code, letter, rfl⟩
      · exact absurd ranged single
      · exact isShield_of_isInert (isInert_of_isAlphanum letter)

end Segment

namespace Layer

/-- The text of the field head of a path. -/
def headText (text : Text) : Text :=
  text.takeWhile (!startsTail ·)

/-- The text of the tail of a path. -/
def tailText (text : Text) : Text :=
  text.dropWhile (!startsTail ·)

theorem headText_append_tailText (text : Text) : headText text ++ tailText text = text :=
  List.takeWhile_append_dropWhile

/-- The field head and the tail of a text. This much is read whatever nested paths are. -/
def cut (text : Text) : Except Error (FieldHead × Tail) :=
  if text.isEmpty then violates .path .empty text
  else if text.length < 3 then violates .path .underThree text
  else if text.hasBlank then violates .path .blank text
  else if (headText text).isEmpty then violates .path .missingField text
  else do
    let head ← FieldHead.parse (headText text)
    let tail ← Tail.parse (tailText text)
    return (head, tail)

/-- A layer put together from its field head and from what its tail adds. -/
def assemble (nesting : Nesting) (head : FieldHead) (additions : Additions ρ) : Layer ρ :=
  ⟨⟨head, additions.groups⟩, additions.subfields, nesting⟩

theorem parseStripped_eq (nested : Text → Except Error ρ) (nesting : Nesting) (text : Text) :
    parseStripped nested nesting text = (do
      let (head, tail) ← cut text
      (tail.additions nested head.render).map (assemble nesting head)) := by
  unfold parseStripped cut
  simp only
  rw [← headText, ← tailText]
  split
  · rfl
  · split
    · rfl
    · split
      · rfl
      · split
        · rfl
        · rw [Field.parse]
          cases FieldHead.parse (headText text) with
          | error error => rfl
          | ok head =>
            cases Tail.parse (tailText text) with
            | error error => rfl
            | ok tail =>
              change (do
                let additions ← tail.additions nested head.render
                return (ofField nesting (Field.ofHead head)).extend additions) =
                  (tail.additions nested head.render).map (assemble nesting head)
              cases tail.additions nested head.render <;> rfl

theorem cut_eq_ok_iff {text : Text} {head : FieldHead} {tail : Tail} :
    cut text = .ok (head, tail) ↔ 3 ≤ text.length ∧ text.hasBlank = false ∧
      FieldHead.parse (headText text) = .ok head ∧ Tail.parse (tailText text) = .ok tail := by
  constructor
  · intro found
    unfold cut at found
    split at found
    · cases found
    · split at found
      · cases found
      · split at found
        · cases found
        · split at found
          · cases found
          · rename_i long solid _
            obtain ⟨head, read, found⟩ := bind_eq_ok_iff.mp found
            obtain ⟨tail, rest, found⟩ := bind_eq_ok_iff.mp found
            obtain ⟨rfl, rfl⟩ := Prod.mk.inj (Except.ok.inj found)
            exact ⟨by omega, by simpa using solid, read, rest⟩
  · rintro ⟨long, solid, read, rest⟩
    have begins : (headText text).isEmpty = false := by
      cases written : headText text with
      | nil =>
        rw [written] at read
        cases read
      | cons c rest => rfl
    have nonempty : text.isEmpty = false := by
      cases text with
      | nil => cases begins
      | cons c rest => rfl
    have long : ¬ text.length < 3 := by omega
    simp [cut, nonempty, long, solid, begins, read, rest, bind, Except.bind, pure, Except.pure]

/-- A layer as it is read from a text without blanks around it. -/
structure Read (nested : Text → Except Error ρ) (nesting : Nesting) (text : Text)
    (layer : Layer ρ) : Prop where
  long : 3 ≤ text.length
  solid : text.hasBlank = false
  head : FieldHead.parse (headText text) = .ok layer.field.head
  tail : ∃ tail, Tail.parse (tailText text) = .ok tail ∧
    tail.additions nested layer.field.head.render = .ok ⟨layer.field.groups, layer.subfields⟩
  nesting : layer.nesting = nesting

variable {nesting : Nesting} {text : Text} {layer : Layer ρ}

theorem parseStripped_eq_ok_iff :
    parseStripped nested nesting text = .ok layer ↔ Read nested nesting text layer := by
  rw [parseStripped_eq, bind_eq_ok_iff]
  constructor
  · rintro ⟨⟨head, tail⟩, known, found⟩
    obtain ⟨additions, added, rfl⟩ := map_eq_ok_iff.mp found
    obtain ⟨long, solid, read, rest⟩ := cut_eq_ok_iff.mp known
    exact ⟨long, solid, read, ⟨tail, rest, added⟩, rfl⟩
  · intro read
    obtain ⟨tail, rest, added⟩ := read.tail
    obtain rfl := read.nesting
    exact ⟨(layer.field.head, tail), cut_eq_ok_iff.mpr ⟨read.long, read.solid, read.head, rest⟩,
      map_eq_ok_iff.mpr ⟨_, added, rfl⟩⟩

/-- A layer without its field head, as the tail of a text. -/
def tail (layer : Layer ρ) : Tail :=
  ⟨layer.field.groups.map Group.render, layer.subfields.map Subfield.segment⟩

theorem render_eq (layer : Layer ρ) :
    layer.render = layer.field.head.render ++ layer.tail.render := by
  simp [render, Field.render, tail, Tail.render, List.flatMap_def, Function.comp_def,
    Subfield.render_segment]

theorem headText_append {head tail : Text} (inert : ∀ c ∈ head, isInert c = true)
    (begins : tail = [] ∨ ∃ c rest, tail = c :: rest ∧ startsTail c = true) :
    headText (head ++ tail) = head ∧ tailText (head ++ tail) = tail := by
  have outside : ∀ c ∈ head, (!startsTail c) = true := by
    intro c member
    have known := inert c member
    simp only [isInert, isShield, Bool.and_eq_true, bne_iff_ne, Bool.not_eq_true',
      Bool.or_eq_false_iff, beq_eq_false_iff_ne] at known
    simp [startsTail, known.1.1, known.2.1]
  rw [headText, tailText, List.takeWhile_append_of_pos outside, List.dropWhile_append_of_pos outside]
  rcases begins with rfl | ⟨c, rest, rfl, known⟩
  · simp
  · simp [known]

namespace Read

/-- What the groups and subfields of a layer are read from. -/
theorem parts (read : Read nested nesting text layer) :
    ∃ tail parts, Tail.parse (tailText text) = .ok tail ∧
      List.mapM (Group.parse nested layer.field.head.render) tail.groups = .ok layer.field.groups ∧
      List.mapM (Segment.subfields nested layer.field.head.render) tail.segments = .ok parts ∧
      layer.subfields = parts.flatten := by
  obtain ⟨tail, cut, added⟩ := read.tail
  obtain ⟨groups, parts, reads, same⟩ := Tail.additions_eq_ok_iff.mp added
  exact ⟨tail, parts, cut, groups, reads, same⟩

theorem groups_eq {tail : Tail}
    (groups : List.mapM (Group.parse nested layer.field.head.render) tail.groups =
      .ok layer.field.groups) : layer.tail.groups = tail.groups :=
  map_of_mapM (fun _ _ _ => Group.render_of_parse) groups

/-- Every subfield of a layer is one of the subfields of a segment. -/
theorem exists_segment {tail : Tail} {parts : List (List (Subfield ρ))}
    (reads : List.mapM (Segment.subfields nested layer.field.head.render) tail.segments = .ok parts)
    (same : layer.subfields = parts.flatten) {subfield : Subfield ρ}
    (member : subfield ∈ layer.subfields) :
    ∃ segment ∈ tail.segments, ∃ part,
      Segment.subfields nested layer.field.head.render segment = .ok part ∧ subfield ∈ part := by
  rw [same] at member
  obtain ⟨part, known, inside⟩ := List.mem_flatten.mp member
  obtain ⟨segment, source, found⟩ := exists_of_mem_mapM reads known
  exact ⟨segment, source, part, found, inside⟩

/-- Without ranges the tail of a layer is the tail that was read. -/
theorem tail_eq (read : Read nested nesting text layer) {tail : Tail}
    (cut : Tail.parse (tailText text) = .ok tail)
    (single : ∀ segment ∈ tail.segments, segment.isRange = false) : layer.tail = tail := by
  obtain ⟨_, parts, cut', groups, reads, same⟩ := read.parts
  obtain rfl := Except.ok.inj (cut.symm.trans cut')
  rw [Layer.tail, same, Segment.map_segment_flatten reads single]
  exact congrArg (Tail.mk · tail.segments) (groups_eq groups)

end Read
end Layer
end MarcPath
