import Mathlib.Data.List.Induction
import Mathlib.Data.List.TakeWhile
import Mathlib.Algebra.Order.Ring.Nat
import MarcPath.Proofs.Strip
import MarcPath.Span

/-! Runs of digits and the numerals they spell. A run is read if it is not too long, and the longest
run of a text bounds the numbers that can be read off it. -/
namespace MarcPath

/-- No run of digits in a text is longer than the limit. -/
def Text.DigitsWithin (limit : Nat) (text : Text) : Prop :=
  ∀ run, run <:+: text → run.all isDigit = true → run.length ≤ limit

theorem isDigit_iff {c : Char} :
    isDigit c = true ↔ ∃ start ∈ digitZeros, start ≤ c.toNat ∧ c.toNat < start + 10 := by
  simp [isDigit, digitValue?, List.find?_isSome]

/-- The scripts leave out the code points of all blanks. -/
private theorem digitZeros_apart (start : Nat) (member : start ∈ digitZeros) :
    start = 0x30 ∨ (0x660 ≤ start ∧ start ≤ 0x1090) ∨ (0x17E0 ≤ start ∧ start ≤ 0x1C50) ∨
      0xA620 ≤ start := by
  revert start
  decide

theorem isBlank_of_isDigit {c : Char} (digit : isDigit c = true) : isBlank c = false := by
  obtain ⟨start, member, low, high⟩ := isDigit_iff.mp digit
  have apart := digitZeros_apart start member
  simp only [isBlank, Bool.or_eq_false_iff, Bool.and_eq_false_iff, decide_eq_false_iff_not,
    beq_eq_false_iff_ne, ne_eq]
  omega

theorem Text.solid_of_digits {digits : Text} (all : digits.all isDigit = true) :
    digits.hasBlank = false := by
  rw [solid_iff]
  exact fun c member => isBlank_of_isDigit (List.all_eq_true.mp all c member)

theorem isUpper_iff {c : Char} : c.isUpper = true ↔ 0x41 ≤ c.toNat ∧ c.toNat ≤ 0x5A := by
  change decide (c.val ≥ 'A'.val ∧ c.val ≤ 'Z'.val) = true ↔ _
  rw [decide_eq_true_eq]
  exact Iff.rfl

theorem isLower_iff {c : Char} : c.isLower = true ↔ 0x61 ≤ c.toNat ∧ c.toNat ≤ 0x7A := by
  change (decide (c.val ≥ 'a'.val) && decide (c.val ≤ 'z'.val)) = true ↔ _
  rw [Bool.and_eq_true, decide_eq_true_eq, decide_eq_true_eq]
  exact Iff.rfl

theorem isAsciiDigit_iff {c : Char} : c.isDigit = true ↔ 0x30 ≤ c.toNat ∧ c.toNat ≤ 0x39 := by
  change (decide (c.val ≥ '0'.val) && decide (c.val ≤ '9'.val)) = true ↔ _
  rw [Bool.and_eq_true, decide_eq_true_eq, decide_eq_true_eq]
  exact Iff.rfl

theorem isAlphanum_iff {c : Char} :
    c.isAlphanum = true ↔ (c.isUpper = true ∨ c.isLower = true) ∨ c.isDigit = true := by
  change ((_ || _) || _) = true ↔ _
  rw [Bool.or_eq_true, Bool.or_eq_true]

theorem isBlank_of_isAlphanum {c : Char} (known : c.isAlphanum = true) : isBlank c = false := by
  rw [isAlphanum_iff, isUpper_iff, isLower_iff, isAsciiDigit_iff] at known
  simp only [isBlank, Bool.or_eq_false_iff, Bool.and_eq_false_iff, decide_eq_false_iff_not,
    beq_eq_false_iff_ne, ne_eq]
  omega

theorem digitValue?_lt {c : Char} : (digitValue? c).getD 0 < 10 := by
  unfold digitValue?
  cases found : digitZeros.find? fun start => start ≤ c.toNat && c.toNat < start + 10 with
  | none => simp
  | some start =>
    have range := List.find?_some found
    simp only [Bool.and_eq_true, decide_eq_true_eq] at range
    simp only [Option.map_some, Option.getD_some]
    omega

namespace Text.DigitsWithin

variable {limit : Nat} {text : Text}

theorem of_part {part : Text} (known : DigitsWithin limit text) (inside : part <:+: text) :
    DigitsWithin limit part :=
  fun run member digits => known run (member.trans inside) digits

theorem of_length_le (short : text.length ≤ limit) : DigitsWithin limit text :=
  fun _ member _ => member.length_le.trans short

theorem mono {larger : Nat} (known : DigitsWithin limit text) (le : limit ≤ larger) :
    DigitsWithin larger text :=
  fun run member digits => (known run member digits).trans le

/-- A run of digits does not reach across a character that is no digit. -/
theorem append_cons {first rest : Text} {c : Char} (left : DigitsWithin limit first)
    (apart : isDigit c = false) (right : DigitsWithin limit rest) :
    DigitsWithin limit (first ++ c :: rest) := by
  have cut {run : Text} (starts : run <+: c :: rest) (digits : run.all isDigit = true) : run = [] := by
    rcases List.prefix_cons_iff.mp starts with none | ⟨_, rfl, _⟩
    · exact none
    · simp [apart] at digits
  intro run member digits
  rcases List.infix_append_iff.mp member with inside | inside | ⟨front, back, rfl, ends, starts⟩
  · exact left run inside digits
  · rcases List.infix_cons_iff.mp inside with starts | inside
    · simp [cut starts digits]
    · exact right run inside digits
  · rw [List.all_append, Bool.and_eq_true] at digits
    rw [cut starts digits.2, List.append_nil]
    exact left front ends.isInfix digits.1

end Text.DigitsWithin

namespace Numeral

theorem digitsValue_append (digits : Text) (c : Char) :
    digitsValue (digits ++ [c]) = 10 * digitsValue digits + (digitValue? c).getD 0 := by
  simp [digitsValue, List.foldl_append]

/-- A run of so many digits is less than the power of ten with so many zeros. -/
theorem digitsValue_lt (digits : Text) : digitsValue digits < 10 ^ digits.length := by
  induction digits using List.reverseRecOn with
  | nil => simp [digitsValue]
  | append_singleton digits c ih =>
    have last := digitValue?_lt (c := c)
    rw [digitsValue_append, List.length_append, List.length_singleton, Nat.pow_succ]
    omega

variable {digits : Text}

private theorem dropWhile_digits (all : digits.all isDigit = true) (rest : Text) (nonempty : digits ≠ []) :
    (digits ++ rest).dropWhile isNumeralBlank = digits ++ rest := by
  obtain ⟨c, more, rfl⟩ := List.exists_cons_of_ne_nil nonempty
  rw [List.all_cons, Bool.and_eq_true] at all
  simp [isNumeralBlank, isBlank_of_isDigit all.1]

private theorem trim_digits {after : Text} (all : digits.all isDigit = true) (nonempty : digits ≠ [])
    (blank : after.all isNumeralBlank = true) : (digits ++ after).trim isNumeralBlank = digits := by
  have dropped : after.reverse.dropWhile isNumeralBlank = [] :=
    List.dropWhile_eq_nil_iff.mpr (by simpa using blank)
  have kept : (digits.reverse ++ []).dropWhile isNumeralBlank = digits.reverse ++ [] :=
    dropWhile_digits (by simpa using all) [] (by simpa using nonempty)
  rw [List.append_nil] at kept
  rw [Text.trim, dropWhile_digits all after nonempty, List.reverse_append, List.dropWhile_append, dropped,
    List.isEmpty_nil, if_pos rfl, kept, List.reverse_reverse]

private theorem splitSign_digits (all : digits.all isDigit = true) :
    splitSign digits = (false, digits) := by
  unfold splitSign
  split
  · simp [show isDigit '-' = false by decide] at all
  · simp [show isDigit '+' = false by decide] at all
  · rfl

/-- Blanks after the digits of a numeral are passed over. The digits stand for their value, unless there
are too many of them. -/
theorem read_digits_append {after : Text} (all : digits.all isDigit = true) (nonempty : digits ≠ [])
    (blank : after.all isNumeralBlank = true) :
    read (digits ++ after) =
      if maxDigits < digits.length then .error (.tooManyDigits digits.length)
      else .ok (digitsValue digits) := by
  have whole : digits.takeWhile isDigit = digits :=
    List.takeWhile_eq_self_iff.mpr (List.all_eq_true.mp all)
  simp [read, trim_digits all nonempty blank, splitSign_digits all, whole, nonempty]

theorem read_digits (all : digits.all isDigit = true) (nonempty : digits ≠ []) :
    read digits =
      if maxDigits < digits.length then .error (.tooManyDigits digits.length)
      else .ok (digitsValue digits) := by
  rw [← read_digits_append all nonempty (List.all_nil), List.append_nil]

end Numeral
end MarcPath
