import MarcPath.Field
import MarcPath.Proofs.Misread

/-! The grammar of heads, beside their readers. Each rule relates a part of a head to the texts that it is
written as. What the readers accept is what the grammar derives, and they find the one derivation there is:
of the head of a field as it stands, of the head of a subfield once the spans in it are told. -/
namespace MarcPath

namespace Grammar

/-- A number in the digits of any script. -/
structure Number (text : Text) : Prop where
  nonempty : text ≠ []
  digits : ∀ c ∈ text, isDigit c = true

/-- A position is a number, or the last one. -/
inductive Position : Text → Prop where
  | last : Position ['#']
  | number {text : Text} (known : Number text) : Position text

/-- A span is one position, or two of which the second is not before the first. -/
inductive Spans : Span → Text → Prop where
  | single {position : Text} (known : Position position) : Spans ⟨position, none⟩ position
  | range {start stop : Text} (first : Position start) (second : Position stop)
      (forwards : Number start → Number stop →
        Numeral.digitsValue start ≤ Numeral.digitsValue stop) :
      Spans ⟨start, some stop⟩ (start ++ '-' :: stop)

/-- A span between the marks that introduce and close it, or nothing at all. -/
inductive Optional (spans : Span → Text → Prop) (opening closing : Text) : Option Span → Text → Prop where
  | absent : Optional spans opening closing none []
  | present {span : Span} {text : Text} (known : spans span text) :
      Optional spans opening closing (some span) (opening ++ text ++ closing)

def Between (first last c : Char) : Prop :=
  first ≤ c ∧ c ≤ last

/-- Three digits, dots and letters, the letters of one case. -/
structure Tag (text : Text) : Prop where
  three : text.length = 3
  alike : (∀ c ∈ text, Between '0' '9' c ∨ Between 'a' 'z' c ∨ c = '.') ∨
    ∀ c ∈ text, Between '0' '9' c ∨ Between 'A' 'Z' c ∨ c = '.'

/-- One or two lowercase letters, digits and underscores. -/
structure Indicators (text : Text) : Prop where
  few : text.length = 1 ∨ text.length = 2
  codes : ∀ c ∈ text, Between 'a' 'z' c ∨ Between '0' '9' c ∨ c = '_'

/-- What is selected of a field: all of it, characters or indicators. -/
inductive Selections (spans : Span → Text → Prop) : Selection → Text → Prop where
  | all : Selections spans .all []
  | characters {span : Span} {text : Text} (known : spans span text) :
      Selections spans (.characters span) ('/' :: text)
  | indicators {codes : Text} (known : Indicators codes) :
      Selections spans (.indicators codes) ('_' :: codes)

inductive FieldHeads (spans : Span → Text → Prop) : FieldHead → Text → Prop where
  | parts {tag first second : Text} {index : Option Span} {selection : Selection} (tagged : Tag tag)
      (indexed : Optional spans ['['] [']'] index first) (selected : Selections spans selection second) :
      FieldHeads spans ⟨tag, index, selection⟩ (tag ++ first ++ second)

inductive SubfieldHeads (spans : Span → Text → Prop) : SubfieldHead → Text → Prop where
  | parts {code : Char} {first second : Text} {index characters : Option Span}
      (visible : Between '!' '~' code) (indexed : Optional spans ['['] [']'] index first)
      (selected : Optional spans ['/'] [] characters second) :
      SubfieldHeads spans ⟨code, index, characters⟩ ('$' :: code :: (first ++ second))

theorem between_lower_iff {c : Char} : Between 'a' 'z' c ↔ c.isLower = true :=
  isLower_iff.symm

theorem between_upper_iff {c : Char} : Between 'A' 'Z' c ↔ c.isUpper = true :=
  isUpper_iff.symm

theorem between_digit_iff {c : Char} : Between '0' '9' c ↔ c.isDigit = true :=
  isAsciiDigit_iff.symm

theorem tag_iff {text : Text} : Tag text ↔ FieldHead.isTag text = true := by
  simp only [FieldHead.isTag, Bool.and_eq_true, Bool.or_eq_true, beq_iff_eq, List.all_eq_true, or_assoc,
    ← between_lower_iff, ← between_upper_iff, ← between_digit_iff]
  exact ⟨fun known => ⟨known.three, known.alike⟩, fun known => ⟨known.1, known.2⟩⟩

theorem indicators_iff {text : Text} : Indicators text ↔ FieldHead.isIndicators text = true := by
  simp only [FieldHead.isIndicators, Bool.and_eq_true, Bool.or_eq_true, beq_iff_eq, List.all_eq_true,
    or_assoc, ← between_lower_iff, ← between_digit_iff]
  exact ⟨fun known => ⟨known.few, known.codes⟩, fun known => ⟨known.1, known.2⟩⟩

theorem between_code_iff {c : Char} : Between '!' '~' c ↔ SubfieldHead.isCode c = true := by
  rw [SubfieldHead.isCode, Bool.and_eq_true, decide_eq_true_eq, decide_eq_true_eq, Between]

section

variable {spans : Span → Text → Prop} {whole text : Text}

/-- A language of spans is the one that is read, as far as the parts of a text are concerned. -/
def Exact (spans : Span → Text → Prop) (whole : Text) : Prop :=
  ∀ span part, part <:+: whole → (spans span part ↔ Span.parse part = .ok span)

theorem Exact.of_part {part : Text} (exact : Exact spans whole) (inside : part <:+: whole) :
    Exact spans part :=
  fun span other within => exact span other (within.trans inside)

theorem optional_iff {opening closing : Text} {given : Option Span} (exact : Exact spans text) :
    Optional spans opening closing given text ↔
      Span.renderAfter opening closing given = text ∧ ∀ span ∈ given, span.WellFormed := by
  constructor
  · intro known
    cases known with
    | absent => exact ⟨rfl, by simp⟩
    | @present span part known =>
      have inside : part <:+: opening ++ part ++ closing := ⟨opening, closing, rfl⟩
      obtain ⟨written, wellFormed⟩ := Span.of_parse ((exact span part inside).mp known)
      exact ⟨by rw [Span.renderAfter, written], by simpa using wellFormed⟩
  · rintro ⟨rfl, known⟩
    cases given with
    | none => exact .absent
    | some span =>
      have inside : span.render <:+: Span.renderAfter opening closing (some span) := ⟨opening, closing, rfl⟩
      exact .present ((exact span _ inside).mpr (Span.parse_render (known span rfl)))

theorem selections_iff {selection : Selection} (exact : Exact spans text) :
    Selections spans selection text ↔ selection.render = text ∧
      (∀ span, selection = .characters span → span.WellFormed) ∧
        ∀ codes, selection = .indicators codes → FieldHead.isIndicators codes = true := by
  constructor
  · intro known
    cases known with
    | all => simp [Selection.render]
    | @characters span part known =>
      have inside : part <:+: '/' :: part := (List.suffix_cons _ _).isInfix
      obtain ⟨rfl, wellFormed⟩ := Span.of_parse ((exact span part inside).mp known)
      simpa [Selection.render] using wellFormed
    | indicators known => simpa [Selection.render] using indicators_iff.mp known
  · rintro ⟨rfl, characters, indicators⟩
    cases selection with
    | all => exact .all
    | characters span =>
      have inside : span.render <:+: Selection.render (.characters span) := (List.suffix_cons _ _).isInfix
      exact .characters ((exact span _ inside).mpr (Span.parse_render (characters span rfl)))
    | indicators codes => exact .indicators (indicators_iff.mpr (indicators codes rfl))

end

end Grammar

namespace FieldHead

variable {head : FieldHead} {text : Text}

theorem characters_eq_some_iff {span : Span} :
    head.characters = some span ↔ head.selection = .characters span := by
  cases chosen : head.selection <;> simp [characters, chosen]

theorem indicators_eq_some_iff {codes : Text} :
    head.indicators = some codes ↔ head.selection = .indicators codes := by
  cases chosen : head.selection <;> simp [indicators, chosen]

theorem WellFormed.parseSelection (known : head.WellFormed) (whole : Text) :
    parseSelection whole head.selection.render = .ok head.selection := by
  cases chosen : head.selection with
  | all => rfl
  | characters span =>
    have read := Span.parse_render (known.characters span (characters_eq_some_iff.mpr chosen))
    simp [Selection.render, FieldHead.parseSelection, read, Except.map]
  | indicators codes =>
    have good := known.indicators codes (indicators_eq_some_iff.mpr chosen)
    simp [Selection.render, FieldHead.parseSelection, good]

theorem head?_render_selection (selection : Selection) : selection.render.head? ≠ some '[' := by
  cases selection <;> simp [Selection.render]

/-- A well-formed field head reads back from what is written, if that has no blanks. -/
theorem parse_render (known : head.WellFormed) (solid : head.render.hasBlank = false) :
    FieldHead.parse head.render = .ok head := by
  have three := known.length_tag
  have front : head.render.take 3 = head.tag := by
    rw [render, List.append_assoc, List.take_left' three]
  have back : head.render.drop 3 = Span.renderIndex head.index ++ head.selection.render := by
    rw [render, List.append_assoc, List.drop_left' three]
  have long : ¬ head.render.length < 3 := by
    simp only [render, List.length_append, three]
    omega
  rw [FieldHead.parse, if_neg long, if_neg (by simp [solid]), front, if_neg (by simp [known.tag]), back,
    Span.splitIndex_render known.index (head?_render_selection head.selection)]
  change (do
    let selection ← FieldHead.parseSelection head.render head.selection.render
    return FieldHead.mk head.tag head.index selection) = _
  rw [known.parseSelection]
  rfl

theorem parse_eq_ok_iff : FieldHead.parse text = .ok head ↔
    (head.render = text ∧ head.WellFormed) ∧ text.hasBlank = false := by
  constructor
  · intro found
    exact ⟨of_parse found, solid_of_parse found⟩
  · rintro ⟨⟨rfl, known⟩, solid⟩
    exact parse_render known solid

end FieldHead

namespace SubfieldHead

variable {head : SubfieldHead} {text : Text}

/-- A well-formed subfield head reads back from what is written. -/
theorem parse_render (known : head.WellFormed) : SubfieldHead.parse head.render = .ok head := by
  have ends : (Span.renderCharacters head.characters).head? ≠ some '[' := by
    cases head.characters <;> simp [Span.renderCharacters, Span.renderAfter]
  have characters : SubfieldHead.parseCharacters head.render (Span.renderCharacters head.characters) =
      .ok head.characters := by
    cases chosen : head.characters with
    | none => rfl
    | some span =>
      have read := Span.parse_render (known.characters span chosen)
      simp [Span.renderCharacters, Span.renderAfter, parseCharacters, read, Except.map]
  have begins : head.render =
      '$' :: head.code :: (Span.renderIndex head.index ++ Span.renderCharacters head.characters) := rfl
  rw [begins, SubfieldHead.parse, if_neg (by simp), if_neg (by simp [known.code]),
    Span.splitIndex_render known.index ends, ← begins]
  change (do
    let characters ← parseCharacters head.render (Span.renderCharacters head.characters)
    return SubfieldHead.mk head.code head.index characters) = _
  rw [characters]
  rfl

theorem parse_eq_ok_iff : SubfieldHead.parse text = .ok head ↔ head.render = text ∧ head.WellFormed :=
  ⟨of_parse, fun known => known.1 ▸ parse_render known.2⟩

end SubfieldHead

namespace Grammar

variable {spans : Span → Text → Prop} {text : Text}

theorem fieldHeads_iff {head : FieldHead} (exact : Exact spans text) :
    FieldHeads spans head text ↔ head.render = text ∧ head.WellFormed := by
  constructor
  · intro known
    cases known with
    | @parts tag first second index selection tagged indexed selected =>
      have front : first <:+: tag ++ first ++ second := ⟨tag, second, rfl⟩
      have behind : second <:+: tag ++ first ++ second := (List.suffix_append _ _).isInfix
      obtain ⟨rfl, spans⟩ := (optional_iff (exact.of_part front)).mp indexed
      obtain ⟨rfl, characters, indicators⟩ := (selections_iff (exact.of_part behind)).mp selected
      exact ⟨rfl, tag_iff.mp tagged, spans,
        fun span member => characters span (FieldHead.characters_eq_some_iff.mp member),
        fun codes member => indicators codes (FieldHead.indicators_eq_some_iff.mp member)⟩
  · rintro ⟨rfl, known⟩
    obtain ⟨tag, index, selection⟩ := head
    have front : Span.renderIndex index <:+: FieldHead.render ⟨tag, index, selection⟩ :=
      ⟨tag, selection.render, rfl⟩
    have behind : selection.render <:+: FieldHead.render ⟨tag, index, selection⟩ :=
      (List.suffix_append _ _).isInfix
    exact .parts (tag_iff.mpr known.tag)
      ((optional_iff (exact.of_part front)).mpr ⟨rfl, known.index⟩)
      ((selections_iff (exact.of_part behind)).mpr ⟨rfl,
        fun span chosen => known.characters span (FieldHead.characters_eq_some_iff.mpr chosen),
        fun codes chosen => known.indicators codes (FieldHead.indicators_eq_some_iff.mpr chosen)⟩)

theorem subfieldHeads_iff {head : SubfieldHead} (exact : Exact spans text) :
    SubfieldHeads spans head text ↔ head.render = text ∧ head.WellFormed := by
  constructor
  · intro known
    cases known with
    | @parts code first second index characters visible indexed selected =>
      have front : first <:+: '$' :: code :: (first ++ second) := ⟨['$', code], second, rfl⟩
      have behind : second <:+: '$' :: code :: (first ++ second) :=
        (List.suffix_append ('$' :: code :: first) second).isInfix
      obtain ⟨rfl, spans⟩ := (optional_iff (exact.of_part front)).mp indexed
      obtain ⟨rfl, others⟩ := (optional_iff (exact.of_part behind)).mp selected
      exact ⟨rfl, between_code_iff.mp visible, spans, others⟩
  · rintro ⟨rfl, known⟩
    obtain ⟨code, index, characters⟩ := head
    have front : Span.renderIndex index <:+: SubfieldHead.render ⟨code, index, characters⟩ :=
      ⟨['$', code], Span.renderCharacters characters, rfl⟩
    have behind : Span.renderCharacters characters <:+: SubfieldHead.render ⟨code, index, characters⟩ :=
      (List.suffix_append ('$' :: code :: Span.renderIndex index) _).isInfix
    exact .parts (between_code_iff.mpr known.code)
      ((optional_iff (exact.of_part front)).mpr ⟨rfl, known.index⟩)
      ((optional_iff (exact.of_part behind)).mpr ⟨rfl, known.characters⟩)

end Grammar
end MarcPath
