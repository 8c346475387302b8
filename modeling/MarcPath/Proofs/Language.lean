import MarcPath.Path.Tree
import MarcPath.Proofs.Position

/-! The languages of field heads and subfield heads. A field head has no blanks, so it is read where the
grammar derives it and nowhere else. A subfield head is read with a line feed behind a position as well; the
record of it cannot be written if that position is the last one. -/
namespace MarcPath

namespace Grammar

variable {spans : Span → Text → Prop} {text : Text}

theorem isBlank_of_between {first last c : Char} (visible : '!' ≤ first) (plain : last ≤ '~')
    (known : Between first last c) : isBlank c = false := by
  have low : 0x21 ≤ c.toNat := Nat.le_trans visible known.1
  have high : c.toNat ≤ 0x7E := Nat.le_trans known.2 plain
  simp only [isBlank, Bool.or_eq_false_iff, Bool.and_eq_false_iff, decide_eq_false_iff_not,
    beq_eq_false_iff_ne, ne_eq]
  omega

theorem feed_not_mem (solid : text.hasBlank = false) : '\n' ∉ text := by
  intro member
  exact absurd (Text.solid_iff.mp solid '\n' member) (by decide)

theorem Tag.solid (known : Tag text) : text.hasBlank = false := by
  rw [Text.solid_iff]
  intro c member
  have digit (known : Between '0' '9' c) : isBlank c = false :=
    isBlank_of_between (by decide) (by decide) known
  rcases known.alike with lower | upper
  · rcases lower c member with known | known | rfl
    · exact digit known
    · exact isBlank_of_between (by decide) (by decide) known
    · rfl
  · rcases upper c member with known | known | rfl
    · exact digit known
    · exact isBlank_of_between (by decide) (by decide) known
    · rfl

theorem Indicators.solid (known : Indicators text) : text.hasBlank = false := by
  rw [Text.solid_iff]
  intro c member
  rcases known.codes c member with known | known | rfl
  · exact isBlank_of_between (by decide) (by decide) known
  · exact isBlank_of_between (by decide) (by decide) known
  · rfl

/-- No text of a span has a blank. -/
def Solid (spans : Span → Text → Prop) : Prop :=
  ∀ span text, spans span text → text.hasBlank = false

theorem solid_spans : Solid Spans :=
  fun _ _ known => known.solid

theorem Optional.solid {opening closing : Text} {given : Option Span} (all : Solid spans)
    (front : opening.hasBlank = false) (back : closing.hasBlank = false)
    (known : Optional spans opening closing given text) : text.hasBlank = false := by
  cases known with
  | absent => rfl
  | @present span part known =>
    exact Text.solid_append.mpr ⟨Text.solid_append.mpr ⟨front, all span part known⟩, back⟩

theorem Selections.solid {selection : Selection} (all : Solid spans)
    (known : Selections spans selection text) : text.hasBlank = false := by
  cases known with
  | all => rfl
  | @characters span part known =>
    exact Text.solid_append.mpr ⟨(rfl : Text.hasBlank ['/'] = false), all span part known⟩
  | @indicators codes known =>
    exact Text.solid_append.mpr ⟨(rfl : Text.hasBlank ['_'] = false), known.solid⟩

theorem FieldHeads.solid {head : FieldHead} (all : Solid spans) (known : FieldHeads spans head text) :
    text.hasBlank = false := by
  cases known with
  | parts tagged indexed selected =>
    have named := Text.solid_append.mpr ⟨tagged.solid, indexed.solid all rfl rfl⟩
    exact Text.solid_append.mpr ⟨named, selected.solid all⟩

theorem SubfieldHeads.solid {head : SubfieldHead} (all : Solid spans)
    (known : SubfieldHeads spans head text) : text.hasBlank = false := by
  cases known with
  | @parts code first second index characters visible indexed selected =>
    have coded : isBlank code = false := isBlank_of_between (by decide) (by decide) visible
    have named : Text.hasBlank ['$', code] = false := by
      rw [Text.solid_iff]
      simpa using ⟨rfl, coded⟩
    have behind := Text.solid_append.mpr ⟨indexed.solid all rfl rfl, selected.solid all rfl rfl⟩
    exact Text.solid_append.mpr ⟨named, behind⟩

end Grammar

variable {text : Text}

/-- The reader of field heads accepts what the grammar derives. -/
theorem FieldHead.parse_eq_ok_iff_derived {head : FieldHead}
    (within : Text.DigitsWithin Numeral.maxDigits text) :
    FieldHead.parse text = .ok head ↔ Grammar.FieldHeads Grammar.Spans head text := by
  have derived (solid : text.hasBlank = false) :
      Grammar.FieldHeads Grammar.Spans head text ↔ head.render = text ∧ head.WellFormed :=
    Grammar.fieldHeads_iff (Grammar.exact_spans within (Grammar.feed_not_mem solid))
  rw [FieldHead.parse_eq_ok_iff]
  constructor
  · rintro ⟨known, solid⟩
    exact (derived solid).mpr known
  · intro known
    have solid := known.solid Grammar.solid_spans
    exact ⟨(derived solid).mp known, solid⟩

/-- The reader of subfield heads accepts what the grammar derives with line feeds behind positions. -/
theorem SubfieldHead.parse_eq_ok_iff_derived {head : SubfieldHead}
    (within : Text.DigitsWithin Numeral.maxDigits text) :
    SubfieldHead.parse text = .ok head ↔ Grammar.SubfieldHeads Grammar.FedSpans head text := by
  rw [SubfieldHead.parse_eq_ok_iff, Grammar.subfieldHeads_iff (Grammar.exact_fedSpans within)]

namespace Span

/-- No position of a span is the last one with a line feed behind it. -/
def Describable (span : Span) : Prop :=
  span.start ≠ ['#', '\n'] ∧ span.stop ≠ some ['#', '\n']

variable {span : Span}

theorem exists_positionTree_iff (known : Grammar.FedPosition text)
    (within : Text.DigitsWithin Numeral.maxDigits text) :
    (∃ tree, positionTree text = .ok tree) ↔ text ≠ ['#', '\n'] := by
  cases known with
  | last => exact iff_of_true ⟨.text ['#'], rfl⟩ (by decide)
  | fedLast =>
    refine iff_of_false ?_ (by decide)
    rintro ⟨tree, found⟩
    rw [positionTree, Grammar.numberOf_fedLast] at found
    cases found
  | @number text value known =>
    refine iff_of_true ⟨.number value, ?_⟩ ?_
    · rw [positionTree, known.isLast, known.numberOf within]
      rfl
    · rintro rfl
      cases known.numberOf within

/-- The length of a span is told, if it has one. -/
theorem exists_length (known : Grammar.FedSpans span text)
    (within : Text.DigitsWithin Numeral.maxDigits text) : ∃ count, span.length = .ok count := by
  cases known with
  | single known =>
    by_cases last : isLast text = true
    · exact ⟨none, by rw [length, if_pos last]⟩
    · exact ⟨some 1, by rw [length, if_neg last]⟩
  | @toLast start stop first second last =>
    by_cases begins : isLast start = true
    · exact ⟨none, by rw [length, if_pos begins]⟩
    · have ends : isLast stop = true := by
        rcases last with rfl | rfl
        · exact absurd rfl begins
        · rfl
      exact ⟨none, by simp only [length, begins, ends, Bool.false_eq_true, ↓reduceIte]⟩
  | @numbers start stop low high first second forwards =>
    have begins := first.numberOf (within.of_part (Grammar.infix_start start stop))
    have ends := second.numberOf (within.of_part (Grammar.infix_stop start stop))
    refine ⟨some ((high : Int) - low + 1), ?_⟩
    simp only [length, first.isLast, second.isLast, begins, ends, Bool.false_eq_true, ↓reduceIte]
    rfl

theorem exists_entries_iff (known : Grammar.FedSpans span text)
    (within : Text.DigitsWithin Numeral.maxDigits text) (label : Text) :
    (∃ entries, span.entries label = .ok entries) ↔ span.Describable := by
  obtain ⟨count, counted⟩ := exists_length known within
  have parts : (∃ entries, span.entries label = .ok entries) ↔
      (∃ tree, positionTree span.start = .ok tree) ∧
        ∀ stop ∈ span.stop, ∃ tree, positionTree stop = .ok tree := by
    rw [entries, counted]
    refine exists_bind_ok_iff fun start => ?_
    rw [← exists_optional_ok_iff]
    exact (exists_bind_ok_iff fun stop => iff_true_intro ⟨_, rfl⟩).trans (iff_of_eq (and_true _))
  rw [parts, Describable]
  have both {start stop : Text} (first : Grammar.FedPosition start) (second : Grammar.FedPosition stop)
      (within : Text.DigitsWithin Numeral.maxDigits (start ++ '-' :: stop)) :
      ((∃ tree, positionTree start = .ok tree) ∧
        ∀ position ∈ some stop, ∃ tree, positionTree position = .ok tree) ↔
          start ≠ ['#', '\n'] ∧ some stop ≠ some ['#', '\n'] := by
    have front := within.of_part (Grammar.infix_start start stop)
    have behind := within.of_part (Grammar.infix_stop start stop)
    simp only [Option.mem_some, forall_eq', exists_positionTree_iff first front,
      exists_positionTree_iff second behind, ne_eq, Option.some.injEq]
  cases known with
  | single known => simp [exists_positionTree_iff known within]
  | toLast first second last => exact both first second within
  | numbers first second forwards => exact both (.number first) (.number second) within

end Span

namespace SubfieldHead

variable {head : SubfieldHead}

/-- The spans that a head is written with. -/
def spans (head : SubfieldHead) : List Span :=
  head.index.toList ++ head.characters.toList

theorem exists_optional_entries_iff {opening closing : Text} {given : Option Span} (label : Text)
    (known : Grammar.Optional Grammar.FedSpans opening closing given text)
    (within : Text.DigitsWithin Numeral.maxDigits text) :
    (∃ entries, given.mapM (Span.entries label) = .ok entries) ↔ ∀ span ∈ given, span.Describable := by
  rw [exists_optional_ok_iff]
  cases known with
  | absent => simp
  | @present span part known =>
    have inside : part <:+: opening ++ part ++ closing := ⟨opening, closing, rfl⟩
    simp only [Option.mem_some, forall_eq', Span.exists_entries_iff known (within.of_part inside)]

theorem exists_entries_iff (known : Grammar.SubfieldHeads Grammar.FedSpans head text)
    (within : Text.DigitsWithin Numeral.maxDigits text) :
    (∃ entries, head.entries = .ok entries) ↔ ∀ span ∈ head.spans, span.Describable := by
  cases known with
  | @parts code first second index characters visible indexed selected =>
    have front : first <:+: '$' :: code :: (first ++ second) := ⟨['$', code], second, rfl⟩
    have behind : second <:+: '$' :: code :: (first ++ second) :=
      (List.suffix_append ('$' :: code :: first) second).isInfix
    have parts : (∃ entries, SubfieldHead.entries ⟨code, index, characters⟩ = .ok entries) ↔
        (∃ entries, index.mapM (Span.entries "index".toList) = .ok entries) ∧
          ∃ entries, characters.mapM (Span.entries "char".toList) = .ok entries := by
      refine exists_bind_ok_iff fun index => ?_
      exact (exists_bind_ok_iff fun characters => iff_true_intro ⟨_, rfl⟩).trans (iff_of_eq (and_true _))
    rw [parts, exists_optional_entries_iff _ indexed (within.of_part front),
      exists_optional_entries_iff _ selected (within.of_part behind)]
    simp [spans, or_imp, forall_and]

end SubfieldHead

section

variable {ρ : Type}

/-- A text is read as a field if the grammar derives it as a field head, of which there is then one. The
head is that of the field, which is written as the text was and selects characters or indicators, not
both. -/
theorem Field.parse_by_grammar (within : Text.DigitsWithin Numeral.maxDigits text) :
    ((∃ field : Field ρ, Field.parse text = .ok field) ↔
      ∃ head, Grammar.FieldHeads Grammar.Spans head text) ∧
    ∀ field : Field ρ, Field.parse text = .ok field →
      (∀ head, Grammar.FieldHeads Grammar.Spans head text ↔ head = field.head) ∧
      (field.head.characters = none ∨ field.head.indicators = none) ∧
      field.groups = [] ∧ field.head.render = text ∧ field.render = text := by
  constructor
  · simp only [Field.parse, exists_map_ok_iff, FieldHead.parse_eq_ok_iff_derived within]
  · intro field found
    obtain ⟨head, read, rfl⟩ := map_eq_ok_iff.mp found
    have written := (FieldHead.of_parse read).1
    refine ⟨fun other => ?_, ?_, rfl, written, ?_⟩
    · rw [← FieldHead.parse_eq_ok_iff_derived within, read, Except.ok.injEq, eq_comm]
      rfl
    · change head.characters = none ∨ head.indicators = none
      cases chosen : head.selection <;> simp [FieldHead.characters, FieldHead.indicators, chosen]
    · simpa [Field.render, Field.ofHead] using written

theorem Field.parse_by_grammar_of_index :
    Text.DigitsWithin Numeral.maxDigits "245[0-12]_1_".toList ∧
      ∃ field : Field Path, Field.parse "245[0-12]_1_".toList = .ok field ∧
        field.head = ⟨"245".toList, some ⟨"0".toList, some "12".toList⟩, .indicators "1_".toList⟩ ∧
        Grammar.FieldHeads Grammar.Spans field.head "245[0-12]_1_".toList := by
  have within : Text.DigitsWithin Numeral.maxDigits "245[0-12]_1_".toList := .of_length_le (by decide)
  have known := Field.parse_by_grammar (ρ := Path) within
  have found : Field.parse "245[0-12]_1_".toList = .ok (⟨⟨"245".toList, some ⟨"0".toList,
      some "12".toList⟩, .indicators "1_".toList⟩, []⟩ : Field Path) := rfl
  exact ⟨within, _, found, rfl, ((known.2 _ found).1 _).mpr rfl⟩

/-- A text is read as a subfield if the grammar derives it with line feeds behind positions; the texts that
the grammar derives are those without one. What is read is written as the text was, and has a record unless
it names the last position with a line feed behind it. -/
theorem Subfield.parse_by_fed_grammar (nested : ρ → Except Error Tree)
    (within : Text.DigitsWithin Numeral.maxDigits text) :
    ((∃ head, Grammar.SubfieldHeads Grammar.Spans head text) ↔
      (∃ subfield : Subfield ρ, Subfield.parse text = .ok subfield) ∧ '\n' ∉ text) ∧
    (∀ subfield : Subfield ρ, Subfield.parse text = .ok subfield ↔
      subfield.groups = [] ∧ Grammar.SubfieldHeads Grammar.FedSpans subfield.head text) ∧
    ∀ subfield : Subfield ρ, Subfield.parse text = .ok subfield →
      subfield.head.render = text ∧ subfield.render = text ∧
      ((∃ tree, subfield.tree nested = .ok tree) ↔ ∀ span ∈ subfield.head.spans, span.Describable) := by
  refine ⟨?_, ?_, ?_⟩
  · rw [Subfield.parse, exists_map_ok_iff]
    have derived (absent : '\n' ∉ text) (head : SubfieldHead) :
        Grammar.SubfieldHeads Grammar.Spans head text ↔ SubfieldHead.parse text = .ok head := by
      rw [Grammar.subfieldHeads_iff (Grammar.exact_spans within absent), SubfieldHead.parse_eq_ok_iff]
    constructor
    · rintro ⟨head, known⟩
      have absent := Grammar.feed_not_mem (known.solid Grammar.solid_spans)
      exact ⟨⟨head, (derived absent head).mp known⟩, absent⟩
    · rintro ⟨⟨head, found⟩, absent⟩
      exact ⟨head, (derived absent head).mpr found⟩
  · rintro ⟨head, groups⟩
    rw [Subfield.parse, map_eq_ok_iff, ← SubfieldHead.parse_eq_ok_iff_derived within]
    simp [Subfield.ofHead, and_comm, eq_comm]
  · intro subfield found
    obtain ⟨head, read, rfl⟩ := map_eq_ok_iff.mp found
    have written := (SubfieldHead.of_parse read).1
    refine ⟨written, by simpa [Subfield.render, Subfield.ofHead] using written, ?_⟩
    have known := (SubfieldHead.parse_eq_ok_iff_derived within).mp read
    refine Iff.trans ?_ (SubfieldHead.exists_entries_iff known within)
    exact (exists_bind_ok_iff fun entries => iff_true_intro ⟨_, rfl⟩).trans (iff_of_eq (and_true _))

theorem Subfield.parse_by_fed_grammar_of_range :
    Text.DigitsWithin Numeral.maxDigits "$a[0-1]/#".toList ∧
      ∃ subfield : Subfield Path, Subfield.parse "$a[0-1]/#".toList = .ok subfield ∧
        (∃ tree, subfield.tree Path.tree = .ok tree) ∧
        ∃ head, Grammar.SubfieldHeads Grammar.Spans head "$a[0-1]/#".toList := by
  have within : Text.DigitsWithin Numeral.maxDigits "$a[0-1]/#".toList := .of_length_le (by decide)
  obtain ⟨derived, -, read⟩ := Subfield.parse_by_fed_grammar Path.tree within
  have found : Subfield.parse "$a[0-1]/#".toList = .ok (⟨⟨'a', some ⟨"0".toList, some "1".toList⟩,
      some ⟨"#".toList, none⟩⟩, []⟩ : Subfield Path) := rfl
  refine ⟨within, _, found, (read _ found).2.2.mpr ?_, derived.mpr ⟨⟨_, found⟩, by decide⟩⟩
  simp [SubfieldHead.spans, Span.Describable]

/-- The last position is read in spite of a line feed behind it, but neither derived nor recorded. -/
theorem Subfield.no_tree_of_last_and_feed :
    Text.DigitsWithin Numeral.maxDigits "$a/#\n".toList ∧
      ∃ subfield : Subfield Path, Subfield.parse "$a/#\n".toList = .ok subfield ∧
        subfield.tree Path.tree = .error (.numeral (.malformed "#\n".toList)) ∧
        ¬ ∃ head, Grammar.SubfieldHeads Grammar.Spans head "$a/#\n".toList := by
  refine ⟨.of_length_le (by decide), ⟨⟨'a', none, some ⟨"#\n".toList, none⟩⟩, []⟩, rfl, rfl, ?_⟩
  rintro ⟨head, known⟩
  exact absurd (known.solid Grammar.solid_spans) (by decide)

end

end MarcPath
