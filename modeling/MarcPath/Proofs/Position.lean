import MarcPath.Proofs.Grammar

/-! Positions with a line feed behind them. The reader of spans lets one pass behind each position, where
the grammar has none; it reads a number as that number in spite of it, but no longer takes the last position
for the last one. -/
namespace MarcPath

namespace Grammar

/-- A number that a line feed may follow, and its value. -/
inductive FedNumber : Text → Nat → Prop where
  | bare {text : Text} (known : Number text) : FedNumber text (Numeral.digitsValue text)
  | fed {text : Text} (known : Number text) : FedNumber (text ++ ['\n']) (Numeral.digitsValue text)

/-- A position that a line feed may follow. -/
inductive FedPosition : Text → Prop where
  | last : FedPosition ['#']
  | fedLast : FedPosition ['#', '\n']
  | number {text : Text} {value : Nat} (known : FedNumber text value) : FedPosition text

/-- Spans whose positions line feeds may follow. Two positions are compared as numbers, unless one of them
is the last one with no line feed behind it. -/
inductive FedSpans : Span → Text → Prop where
  | single {position : Text} (known : FedPosition position) : FedSpans ⟨position, none⟩ position
  | toLast {start stop : Text} (first : FedPosition start) (second : FedPosition stop)
      (last : start = ['#'] ∨ stop = ['#']) : FedSpans ⟨start, some stop⟩ (start ++ '-' :: stop)
  | numbers {start stop : Text} {low high : Nat} (first : FedNumber start low)
      (second : FedNumber stop high) (forwards : low ≤ high) :
      FedSpans ⟨start, some stop⟩ (start ++ '-' :: stop)

theorem Number.all {text : Text} (known : Number text) : text.all isDigit = true :=
  List.all_eq_true.mpr known.digits

theorem Number.solid {text : Text} (known : Number text) : text.hasBlank = false :=
  Text.solid_of_digits known.all

theorem not_number_of_hash (rest : Text) : ¬ Number ('#' :: rest) := by
  intro known
  exact absurd (known.digits '#' (by simp)) (by decide)

theorem Position.solid {text : Text} (known : Position text) : text.hasBlank = false := by
  cases known with
  | last => decide
  | number known => exact known.solid

theorem Position.fed {text : Text} (known : Position text) : FedPosition text := by
  cases known with
  | last => exact .last
  | number known => exact .number (.bare known)

theorem FedNumber.number {text : Text} {value : Nat} (known : FedNumber text value)
    (absent : '\n' ∉ text) : Number text ∧ value = Numeral.digitsValue text := by
  cases known with
  | bare known => exact ⟨known, rfl⟩
  | fed known => simp at absent

theorem FedPosition.position {text : Text} (known : FedPosition text) (absent : '\n' ∉ text) :
    Position text := by
  cases known with
  | last => exact .last
  | fedLast => simp at absent
  | number known => exact .number (known.number absent).1

theorem Spans.solid {span : Span} {text : Text} (known : Spans span text) : text.hasBlank = false := by
  cases known with
  | single known => exact known.solid
  | @range start stop first second forwards =>
    have behind : Text.hasBlank ('-' :: stop) = false :=
      Text.solid_append.mpr ⟨(rfl : Text.hasBlank ['-'] = false), second.solid⟩
    exact Text.solid_append.mpr ⟨first.solid, behind⟩

theorem Spans.fed {span : Span} {text : Text} (known : Spans span text) : FedSpans span text := by
  cases known with
  | single known => exact .single known.fed
  | range first second forwards =>
    cases first with
    | last => exact .toLast .last second.fed (.inl rfl)
    | number low =>
      cases second with
      | last => exact .toLast (.number (.bare low)) .last (.inr rfl)
      | number high => exact .numbers (.bare low) (.bare high) (forwards low high)

theorem FedSpans.spans {span : Span} {text : Text} (known : FedSpans span text) (absent : '\n' ∉ text) :
    Spans span text := by
  cases known with
  | single known => exact .single (known.position absent)
  | @toLast start stop first second last =>
    rw [List.mem_append, not_or, List.mem_cons, not_or] at absent
    refine .range (first.position absent.1) (second.position absent.2.2) ?_
    intro low high
    rcases last with rfl | rfl
    · exact absurd low (not_number_of_hash [])
    · exact absurd high (not_number_of_hash [])
  | numbers first second forwards =>
    rw [List.mem_append, not_or, List.mem_cons, not_or] at absent
    obtain ⟨low, rfl⟩ := first.number absent.1
    obtain ⟨high, rfl⟩ := second.number absent.2.2
    exact .range (.number low) (.number high) fun _ _ => forwards

theorem fedPosition_iff {text : Text} : FedPosition text ↔ Span.isPosition text = true := by
  constructor
  · intro known
    cases known with
    | last => rfl
    | fedLast => rfl
    | number known =>
      cases known with
      | bare known =>
        rw [Span.isPosition, Text.chomp_eq_self known.solid]
        simp [known.nonempty, known.all]
      | @fed digits known =>
        have chomped : Text.chomp (digits ++ ['\n']) = digits := by simp [Text.chomp]
        rw [Span.isPosition, chomped]
        simp [known.nonempty, known.all]
  · intro known
    have cases {position : Text} (known : (Span.isLast position ||
        (!position.isEmpty && position.all isDigit)) = true) : position = ['#'] ∨ Number position := by
      rw [Bool.or_eq_true, Span.isLast, beq_iff_eq] at known
      apply known.imp_right
      intro digits
      rw [Bool.and_eq_true, Bool.not_eq_true', List.isEmpty_eq_false_iff, List.all_eq_true] at digits
      exact ⟨digits.1, digits.2⟩
    by_cases ends : (text.getLast? == some '\n') = true
    · obtain ⟨front, rfl⟩ := List.getLast?_eq_some_iff.mp (beq_iff_eq.mp ends)
      have chomped : Text.chomp (front ++ ['\n']) = front := by simp [Text.chomp]
      rw [Span.isPosition, chomped] at known
      rcases cases known with rfl | number
      · exact .fedLast
      · exact .number (.fed number)
    · rw [Span.isPosition, Text.chomp, if_neg ends] at known
      rcases cases known with rfl | number
      · exact .last
      · exact .number (.bare number)

variable {text : Text} {span : Span} {value : Nat}

theorem FedNumber.isLast (known : FedNumber text value) : Span.isLast text = false := by
  rw [Span.isLast, beq_eq_false_iff_ne]
  rintro rfl
  exact not_number_of_hash [] (known.number (by decide)).1

theorem FedNumber.numberOf (known : FedNumber text value)
    (within : Text.DigitsWithin Numeral.maxDigits text) : numberOf text = .ok (value : Int) := by
  cases known with
  | bare known =>
    have short := within text List.infix_rfl known.all
    rw [numberOf_digits known.all known.nonempty, if_neg (by omega)]
  | @fed digits known =>
    have short := within digits (List.prefix_append _ _).isInfix known.all
    rw [MarcPath.numberOf, Numeral.read_digits_append known.all known.nonempty rfl, if_neg (by omega)]
    rfl

/-- The last position with a line feed behind it is read as a number, which it is not. -/
theorem numberOf_fedLast : numberOf ['#', '\n'] = .error (.numeral (.malformed ['#', '\n'])) :=
  rfl

theorem isReversed_of_numbers {start stop : Text} {low high : Nat} (first : FedNumber start low)
    (second : FedNumber stop high) (front : Text.DigitsWithin Numeral.maxDigits start)
    (behind : Text.DigitsWithin Numeral.maxDigits stop) :
    Span.isReversed ⟨start, some stop⟩ = .ok (decide (high < low)) := by
  simp only [Span.isReversed, first.isLast, second.isLast, first.numberOf front, second.numberOf behind]
  simp [bind, Except.bind, pure, Except.pure]

theorem infix_start (start stop : Text) : start <:+: start ++ '-' :: stop :=
  (List.prefix_append _ _).isInfix

theorem infix_stop (start stop : Text) : stop <:+: start ++ '-' :: stop :=
  ⟨start ++ ['-'], [], by simp⟩

/-- The reader of spans accepts the spans whose positions line feeds may follow. -/
theorem exact_fedSpans {whole : Text} (within : Text.DigitsWithin Numeral.maxDigits whole) :
    Exact FedSpans whole := by
  intro span part inside
  have within := within.of_part inside
  rw [Span.parse_eq_ok_iff]
  constructor
  · intro known
    cases known with
    | single known => exact ⟨rfl, fedPosition_iff.mp known, by simp, rfl⟩
    | @toLast start stop first second last =>
      refine ⟨rfl, fedPosition_iff.mp first, by simpa using fedPosition_iff.mp second, ?_⟩
      have uncompared : (Span.isLast start || Span.isLast stop) = true := by
        rw [Bool.or_eq_true, Span.isLast, Span.isLast, beq_iff_eq, beq_iff_eq]
        exact last
      simp only [Span.isReversed, uncompared, ↓reduceIte]
    | @numbers start stop low high first second forwards =>
      refine ⟨rfl, fedPosition_iff.mp (.number first), by simpa using fedPosition_iff.mp (.number second), ?_⟩
      rw [isReversed_of_numbers first second (within.of_part (infix_start start stop))
        (within.of_part (infix_stop start stop)), decide_eq_false (by omega)]
  · rintro ⟨rfl, known⟩
    obtain ⟨start, _ | stop⟩ := span
    · exact .single (fedPosition_iff.mpr known.start)
    · have first := fedPosition_iff.mpr known.start
      have second := fedPosition_iff.mpr (known.stop stop rfl)
      by_cases last : start = ['#'] ∨ stop = ['#']
      · exact .toLast first second last
      · rw [not_or] at last
        have ordered := known.ordered
        have compared : (Span.isLast start || Span.isLast stop) = false := by
          simp [Span.isLast, last]
        simp only [Span.isReversed, compared, Bool.false_eq_true, ↓reduceIte] at ordered
        obtain ⟨final, numbered, ordered⟩ := bind_eq_ok_iff.mp ordered
        obtain ⟨begin', numbered', -⟩ := bind_eq_ok_iff.mp ordered
        cases first with
        | last => exact absurd rfl last.1
        | fedLast =>
          rw [numberOf_fedLast] at numbered'
          cases numbered'
        | number low =>
          cases second with
          | last => exact absurd rfl last.2
          | fedLast =>
            rw [numberOf_fedLast] at numbered
            cases numbered
          | number high =>
            have ordered := known.ordered
            rw [isReversed_of_numbers low high (within.of_part (infix_start start stop))
              (within.of_part (infix_stop start stop))] at ordered
            exact .numbers low high (by simpa using Except.ok.inj ordered)

/-- Where no line feed is in the way, these are the spans of the grammar. -/
theorem exact_spans {whole : Text} (within : Text.DigitsWithin Numeral.maxDigits whole)
    (absent : '\n' ∉ whole) : Exact Spans whole := by
  intro span part inside
  rw [← exact_fedSpans within span part inside]
  exact ⟨Spans.fed, fun known => known.spans fun member => absent (inside.subset member)⟩

end Grammar
end MarcPath
