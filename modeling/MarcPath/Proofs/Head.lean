import MarcPath.Head
import MarcPath.Proofs.Span

/-! Heads as they are read: a head is written as the text it was read from, and beyond the code of a
subfield it holds no character that means anything to the structure of a path. -/
namespace MarcPath

theorem isInert_of_isAlphanum {c : Char} (known : c.isAlphanum = true) : isInert c = true := by
  exact isInert_of_holds known (by decide)

/-- The characters that heads are written with, apart from the codes of subfields. -/
def isHeadChar (c : Char) : Bool :=
  isDigit c || c.isAlphanum || ['.', '[', ']', '/', '_', '#', '-', '\n'].contains c

theorem isHeadChar_of_isAlphanum {c : Char} (known : c.isAlphanum = true) : isHeadChar c = true := by
  simp [isHeadChar, known]

theorem isInert_of_isHeadChar {c : Char} (known : isHeadChar c = true) : isInert c = true :=
  isInert_of_holds known (by decide)

namespace Span

variable {part : Part} {whole rest after : Text} {index : Option Span}

theorem of_splitIndex (found : splitIndex part whole rest = .ok (index, after)) :
    renderIndex index ++ after = rest ∧ ∀ span ∈ index, span.WellFormed := by
  unfold splitIndex at found
  split at found
  · split at found
    · cases found
    · rename_i inner position behind cut
      obtain ⟨span, read, same⟩ := map_eq_ok_iff.mp found
      obtain ⟨rfl, rfl⟩ := Prod.mk.inj same
      obtain ⟨rfl, known⟩ := of_parse read
      obtain ⟨rfl, -⟩ := Text.cutFirst?_eq_some_iff.mp cut
      exact ⟨by simp [renderIndex, renderAfter], by simpa using known⟩
  · obtain ⟨rfl, rfl⟩ := Prod.mk.inj (Except.ok.inj found)
    exact ⟨rfl, by simp⟩

/-- What is written as an index is taken off as that index. -/
theorem splitIndex_render (known : ∀ span ∈ index, span.WellFormed) (ends : after.head? ≠ some '[') :
    splitIndex part whole (renderIndex index ++ after) = .ok (index, after) := by
  cases index with
  | none =>
    change splitIndex part whole after = .ok (none, after)
    unfold splitIndex
    split
    · simp at ends
    · rfl
  | some span =>
    have absent : ']' ∉ span.render := (known span rfl).not_mem (by unfold IsSpanChar; decide)
    have cut : Text.cutFirst? ']' (span.render ++ ']' :: after) = some (span.render, after) :=
      Text.cutFirst?_eq_some_iff.mpr ⟨rfl, absent⟩
    simp [renderIndex, renderAfter, splitIndex, cut, parse_render (known span rfl), Except.map]

theorem IsSpanChar.isHeadChar {c : Char} (known : IsSpanChar c) : isHeadChar c = true := by
  rcases known with digit | rfl | rfl | rfl
  · simp [MarcPath.isHeadChar, digit]
  all_goals decide

/-- A span stays a part of a head with what is written before and after it. -/
theorem isHeadChar_renderAfter {mark close : Text} (known : ∀ span ∈ index, span.WellFormed)
    (before : mark.all isHeadChar = true) (behind : close.all isHeadChar = true) :
    ∀ c ∈ renderAfter mark close index, isHeadChar c = true := by
  cases index with
  | none => simp [renderAfter]
  | some span =>
    intro c member
    rcases List.mem_append.mp member with member | member
    · rcases List.mem_append.mp member with member | member
      · exact List.all_eq_true.mp before c member
      · exact ((known span rfl).isSpanChar c member).isHeadChar
    · exact List.all_eq_true.mp behind c member

end Span

namespace FieldHead

/-- A field head as the reader gives one. -/
structure WellFormed (head : FieldHead) : Prop where
  tag : isTag head.tag = true
  index : ∀ span ∈ head.index, span.WellFormed
  characters : ∀ span ∈ head.characters, span.WellFormed
  indicators : ∀ codes ∈ head.indicators, isIndicators codes = true

variable {text : Text} {head : FieldHead}

private theorem of_parseSelection {whole : Text} {selection : Selection}
    (found : parseSelection whole text = .ok selection) :
    selection.render = text ∧ (∀ span, selection = .characters span → span.WellFormed) ∧
      ∀ codes, selection = .indicators codes → isIndicators codes = true := by
  unfold parseSelection at found
  split at found
  · obtain rfl := Except.ok.inj found
    simp [Selection.render]
  · obtain ⟨span, read, rfl⟩ := map_eq_ok_iff.mp found
    obtain ⟨rfl, known⟩ := Span.of_parse read
    simpa [Selection.render] using known
  · split at found
    · rename_i known
      obtain rfl := Except.ok.inj found
      simpa [Selection.render] using known
    · cases found
  · cases found

theorem of_parse (found : FieldHead.parse text = .ok head) : head.render = text ∧ head.WellFormed := by
  unfold FieldHead.parse at found
  split at found
  · cases found
  · split at found
    · cases found
    · split at found
      · cases found
      · rename_i tag
        obtain ⟨⟨index, rest⟩, split, found⟩ := bind_eq_ok_iff.mp found
        obtain ⟨selection, selected, found⟩ := bind_eq_ok_iff.mp found
        obtain rfl := Except.ok.inj found
        obtain ⟨whole, spans⟩ := Span.of_splitIndex split
        obtain ⟨rfl, characters, indicators⟩ := of_parseSelection selected
        refine ⟨?_, by simpa using tag, spans, ?_, ?_⟩
        · simp only [render, List.append_assoc, whole, List.take_append_drop]
        · intro span member
          apply characters span
          cases selection <;> simp_all [FieldHead.characters]
        · intro codes member
          apply indicators codes
          cases selection <;> simp_all [FieldHead.indicators]

theorem length_of_parse (found : FieldHead.parse text = .ok head) : 3 ≤ text.length := by
  unfold FieldHead.parse at found
  split at found
  · cases found
  · omega

theorem solid_of_parse (found : FieldHead.parse text = .ok head) : text.hasBlank = false := by
  unfold FieldHead.parse at found
  split at found
  · cases found
  · split at found
    · cases found
    · rename_i solid
      simpa using solid

theorem WellFormed.length_tag (known : head.WellFormed) : head.tag.length = 3 := by
  have tag := known.tag
  simp only [isTag, Bool.and_eq_true, beq_iff_eq] at tag
  exact tag.1

/-- A tag is made of letters, digits and dots. -/
theorem isAlphanum_of_isTag {tag : Text} (known : isTag tag = true) {c : Char} (member : c ∈ tag) :
    c.isAlphanum = true ∨ c = '.' := by
  simp only [isTag, Bool.and_eq_true, Bool.or_eq_true, List.all_eq_true, beq_iff_eq] at known
  rw [isAlphanum_iff]
  rcases known.2 with lower | upper
  · have one := lower c member
    tauto
  · have one := upper c member
    tauto

theorem isAlphanum_of_isIndicators {codes : Text} (known : isIndicators codes = true) {c : Char}
    (member : c ∈ codes) : c.isAlphanum = true ∨ c = '_' := by
  rw [isIndicators, Bool.and_eq_true] at known
  have one := List.all_eq_true.mp known.2 c member
  simp only [Bool.or_eq_true, beq_iff_eq] at one
  rw [isAlphanum_iff]
  tauto

theorem WellFormed.isHeadChar (known : head.WellFormed) : ∀ c ∈ head.render, isHeadChar c = true := by
  intro c member
  rcases List.mem_append.mp member with member | member
  · rcases List.mem_append.mp member with member | member
    · rcases isAlphanum_of_isTag known.tag member with letter | rfl
      · exact isHeadChar_of_isAlphanum letter
      · decide
    · exact Span.isHeadChar_renderAfter known.index (by decide) (by decide) c member
  · cases chosen : head.selection with
    | all => simp [chosen, Selection.render] at member
    | characters span =>
      rw [chosen, Selection.render] at member
      rcases List.mem_cons.mp member with rfl | member
      · decide
      · have spans := known.characters span (by simp [FieldHead.characters, chosen])
        exact (spans.isSpanChar c member).isHeadChar
    | indicators codes =>
      rw [chosen, Selection.render] at member
      rcases List.mem_cons.mp member with rfl | member
      · decide
      · have letters := known.indicators codes (by simp [FieldHead.indicators, chosen])
        rcases isAlphanum_of_isIndicators letters member with letter | rfl
        · exact isHeadChar_of_isAlphanum letter
        · decide

/-- No character of a field head means anything to the structure of a path. -/
theorem WellFormed.isInert (known : head.WellFormed) : ∀ c ∈ head.render, isInert c = true :=
  fun c member => isInert_of_isHeadChar (known.isHeadChar c member)

/-- A field head begins with its tag. -/
theorem WellFormed.exists_first (known : head.WellFormed) :
    ∃ c rest, head.render = c :: rest ∧ (c.isAlphanum = true ∨ c = '.') := by
  cases tag : head.tag with
  | nil =>
    have none := known.tag
    rw [tag] at none
    cases none
  | cons c rest =>
    refine ⟨c, _, by rw [render, tag]; rfl, ?_⟩
    exact isAlphanum_of_isTag known.tag (by simp [tag])

end FieldHead

namespace SubfieldHead

/-- A subfield head as the reader gives one. -/
structure WellFormed (head : SubfieldHead) : Prop where
  code : isCode head.code = true
  index : ∀ span ∈ head.index, span.WellFormed
  characters : ∀ span ∈ head.characters, span.WellFormed

variable {text : Text} {head : SubfieldHead}

private theorem of_parseCharacters {whole : Text} {characters : Option Span}
    (found : parseCharacters whole text = .ok characters) :
    Span.renderCharacters characters = text ∧ ∀ span ∈ characters, span.WellFormed := by
  unfold parseCharacters at found
  split at found
  · obtain rfl := Except.ok.inj found
    exact ⟨rfl, by simp⟩
  · obtain ⟨span, read, rfl⟩ := map_eq_ok_iff.mp found
    obtain ⟨rfl, known⟩ := Span.of_parse read
    exact ⟨by simp [Span.renderCharacters, Span.renderAfter], by simpa using known⟩
  · cases found

theorem of_parse (found : SubfieldHead.parse text = .ok head) :
    head.render = text ∧ head.WellFormed := by
  unfold SubfieldHead.parse at found
  split at found
  · rename_i dollar code rest
    split at found
    · cases found
    · split at found
      · cases found
      · rename_i begins known
        obtain ⟨⟨index, after⟩, split, found⟩ := bind_eq_ok_iff.mp found
        obtain ⟨characters, read, found⟩ := bind_eq_ok_iff.mp found
        obtain rfl := Except.ok.inj found
        obtain ⟨rfl, spans⟩ := Span.of_splitIndex split
        obtain ⟨rfl, others⟩ := of_parseCharacters read
        exact ⟨by simp_all [render], by simpa using known, spans, others⟩
  · cases found

theorem isCode_of_isAlphanum {c : Char} (letter : c.isAlphanum = true) : isCode c = true := by
  rw [isAlphanum_iff, isUpper_iff, isLower_iff, isAsciiDigit_iff] at letter
  have first : 0x21 ≤ c.toNat := by omega
  have last : c.toNat ≤ 0x7E := by omega
  rw [isCode, Bool.and_eq_true, decide_eq_true_eq, decide_eq_true_eq]
  exact ⟨first, last⟩

/-- A letter or digit is a code on its own. -/
theorem parse_code {code : Char} (letter : code.isAlphanum = true) :
    SubfieldHead.parse ['$', code] = .ok ⟨code, none, none⟩ := by
  simp [SubfieldHead.parse, isCode_of_isAlphanum letter, Span.splitIndex, parseCharacters, bind,
    Except.bind, pure, Except.pure]

/-- What follows the code of a subfield. -/
def rest (head : SubfieldHead) : Text :=
  Span.renderIndex head.index ++ Span.renderCharacters head.characters

theorem render_eq (head : SubfieldHead) : head.render = '$' :: head.code :: head.rest :=
  rfl

theorem WellFormed.isHeadChar (known : head.WellFormed) : ∀ c ∈ head.rest, isHeadChar c = true := by
  intro c member
  rcases List.mem_append.mp member with member | member
  · exact Span.isHeadChar_renderAfter known.index (by decide) (by decide) c member
  · exact Span.isHeadChar_renderAfter known.characters (by decide) (by decide) c member

/-- Only the code of a subfield can mean anything to the structure of a path. -/
theorem WellFormed.isInert (known : head.WellFormed) : ∀ c ∈ head.rest, isInert c = true :=
  fun c member => isInert_of_isHeadChar (known.isHeadChar c member)

/-- The code of a subfield is shielded by the dollar before it. -/
theorem WellFormed.unbracketed (known : head.WellFormed) : Text.Unbracketed head.render := by
  intro mark member
  have rest := Mark.ofText_inert known.isInert (some head.code)
  simp only [render_eq, Mark.ofText, List.mem_cons] at member
  rcases member with rfl | rfl | member
  · rfl
  · rw [Mark.ofChar_shielded rfl]
    rfl
  · have plain := rest mark member
    cases mark with
    | plain c => rfl
    | _ => cases plain

/-- A subfield head that ends in a shield is a dollar and that shield. -/
theorem WellFormed.rest_eq_nil (known : head.WellFormed)
    (shielded : isShielded head.render.getLast? = true) : head.rest = [] ∧ isShield head.code = true := by
  rw [← Text.lastFrom_eq_getLast? none (by simp [render_eq]), render_eq] at shielded
  change isShielded (Text.lastFrom (some head.code) head.rest) = true at shielded
  by_cases none : head.rest = []
  · rw [none] at shielded
    exact ⟨none, shielded⟩
  · have inert := known.isInert _ (List.getLast_mem none)
    rw [Text.lastFrom_eq_getLast? _ none, List.getLast?_eq_getLast_of_ne_nil none] at shielded
    simp [isShielded, MarcPath.isInert] at shielded inert
    simp [shielded] at inert

end SubfieldHead
end MarcPath
