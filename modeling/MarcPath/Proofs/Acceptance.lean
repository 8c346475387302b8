import Mathlib.Data.List.Infix
import MarcPath.Proofs.Bracket
import MarcPath.Proofs.Outcome
import MarcPath.Segment

/-! Which texts the reader of tails accepts, and which of its two errors the others have. It all depends
on the brackets of a text, and on whether a plain character stands outside of them before any token has
begun. -/
namespace MarcPath

namespace Mark

/-- With `level` brackets open, the marks close no bracket that is not open. -/
def Matched (level : Int) (marks : List Mark) : Prop :=
  ∀ front, front <+: marks → 0 ≤ level + balance front

/-- The marks close just the brackets that are open, the first `level` of them and their own. -/
def Balanced (level : Int) (marks : List Mark) : Prop :=
  Matched level marks ∧ level + balance marks = 0

/-- What follows these marks stands outside of brackets, and before the first dollar that does. -/
structure Precedes (level : Int) (front : List Mark) : Prop where
  outside : level + balance front = 0
  unbegun : ∀ earlier, earlier ++ [dollar] <+: front → level + balance earlier ≠ 0

/-- A plain character stands where no token has begun. -/
def Strays (level : Int) (marks : List Mark) : Prop :=
  ∃ front c, front ++ [plain c] <+: marks ∧ Precedes level front

/-- Such a character comes before any bracket that closes none. -/
def StraysFirst (level : Int) (marks : List Mark) : Prop :=
  ∃ front c, front ++ [plain c] <+: marks ∧ Precedes level front ∧ Matched level front

theorem balance_cons (mark : Mark) (rest : List Mark) :
    balance (mark :: rest) = balance [mark] + balance rest :=
  balance_append [mark] rest

theorem Matched.level_nonneg {level : Int} {marks : List Mark} (matched : Matched level marks) :
    0 ≤ level := by
  simpa [balance] using matched [] List.nil_prefix

theorem matched_cons {level : Int} {mark : Mark} {rest : List Mark} :
    Matched level (mark :: rest) ↔ 0 ≤ level ∧ Matched (level + balance [mark]) rest := by
  constructor
  · intro matched
    refine ⟨matched.level_nonneg, ?_⟩
    intro front first
    have known := matched (mark :: front) (List.prefix_cons_inj mark |>.mpr first)
    rw [balance_cons] at known
    omega
  · intro known front first
    obtain ⟨start, matched⟩ := known
    rcases List.prefix_cons_iff.mp first with rfl | ⟨later, rfl, within⟩
    · simpa [balance] using start
    · have known := matched later within
      rw [balance_cons]
      omega

theorem balanced_nil {level : Int} : Balanced level [] ↔ level = 0 := by
  constructor
  · intro balanced
    simpa [balance] using balanced.2
  · rintro rfl
    refine ⟨?_, rfl⟩
    intro front first
    rw [List.prefix_nil.mp first]
    simp [balance]

theorem balanced_cons {level : Int} {mark : Mark} {rest : List Mark} :
    Balanced level (mark :: rest) ↔ 0 ≤ level ∧ Balanced (level + balance [mark]) rest := by
  rw [Balanced, Balanced, matched_cons, balance_cons mark rest, and_assoc, Int.add_assoc]

theorem precedes_cons {level : Int} {mark : Mark} {front : List Mark} :
    Precedes level (mark :: front) ↔
      ¬ (mark = dollar ∧ level = 0) ∧ Precedes (level + balance [mark]) front := by
  constructor
  · intro precedes
    refine ⟨?_, ?_, ?_⟩
    · rintro ⟨rfl, rfl⟩
      exact precedes.unbegun [] ⟨front, rfl⟩ rfl
    · have outside := precedes.outside
      rw [balance_cons] at outside
      omega
    · intro earlier first
      have unbegun := precedes.unbegun (mark :: earlier) (List.prefix_cons_inj mark |>.mpr first)
      rw [balance_cons] at unbegun
      omega
  · intro known
    obtain ⟨waits, precedes⟩ := known
    refine ⟨?_, ?_⟩
    · have outside := precedes.outside
      rw [balance_cons]
      omega
    · intro earlier first
      cases earlier with
      | nil =>
        obtain ⟨rfl, -⟩ := List.cons_prefix_cons.mp first
        simpa [balance] using waits
      | cons other earlier =>
        obtain ⟨rfl, within⟩ := List.cons_prefix_cons.mp first
        have unbegun := precedes.unbegun earlier within
        rw [balance_cons]
        omega

theorem not_straysFirst_nil {level : Int} : ¬ StraysFirst level [] := by
  intro found
  obtain ⟨front, c, first, -⟩ := found
  simp at first

theorem straysFirst_cons {level : Int} {mark : Mark} {rest : List Mark} :
    StraysFirst level (mark :: rest) ↔
      0 ≤ level ∧ ((level = 0 ∧ mark.isPlain = true) ∨
        (¬ (mark = dollar ∧ level = 0) ∧ StraysFirst (level + balance [mark]) rest)) := by
  constructor
  · intro found
    obtain ⟨front, c, first, precedes, matched⟩ := found
    cases front with
    | nil =>
      obtain ⟨rfl, -⟩ := List.cons_prefix_cons.mp first
      have outside : level = 0 := by simpa [balance] using precedes.outside
      exact ⟨by omega, .inl ⟨outside, rfl⟩⟩
    | cons other front =>
      obtain ⟨rfl, within⟩ := List.cons_prefix_cons.mp first
      obtain ⟨waits, precedes⟩ := precedes_cons.mp precedes
      obtain ⟨start, matched⟩ := matched_cons.mp matched
      exact ⟨start, .inr ⟨waits, front, c, within, precedes, matched⟩⟩
  · intro known
    obtain ⟨start, found⟩ := known
    rcases found with ⟨rfl, isPlain⟩ | ⟨waits, front, c, first, precedes, matched⟩
    · cases mark with
      | plain c =>
        refine ⟨[], c, ⟨rest, rfl⟩, ⟨rfl, ?_⟩, ?_⟩
        · intro earlier first
          simp at first
        · intro front first
          rw [List.prefix_nil.mp first]
          simp [balance]
      | _ => cases isPlain
    · exact ⟨mark :: front, c, (List.prefix_cons_inj mark).mpr first,
        precedes_cons.mpr ⟨waits, precedes⟩, matched_cons.mpr ⟨start, matched⟩⟩

/-- Inside of brackets nothing strays, and every bracket closes one. -/
theorem balanced_cons_inside {level : Int} {mark : Mark} {rest : List Mark} (inside : 0 < level) :
    Balanced level (mark :: rest) ↔ Balanced (level + balance [mark]) rest := by
  rw [balanced_cons, and_iff_right (Int.le_of_lt inside)]

theorem straysFirst_cons_inside {level : Int} {mark : Mark} {rest : List Mark}
    (inside : 0 < level) :
    StraysFirst level (mark :: rest) ↔ StraysFirst (level + balance [mark]) rest := by
  simp [straysFirst_cons, Int.le_of_lt inside, Int.ne_of_gt inside]

theorem StraysFirst.strays {level : Int} {marks : List Mark} (found : StraysFirst level marks) :
    Strays level marks := by
  obtain ⟨front, c, first, precedes, -⟩ := found
  exact ⟨front, c, first, precedes⟩

theorem StraysFirst.level_nonneg {level : Int} {marks : List Mark} (found : StraysFirst level marks) :
    0 ≤ level := by
  obtain ⟨front, c, first, precedes, matched⟩ := found
  exact matched.level_nonneg

/-- Where no bracket closes none, it makes no difference which comes first. -/
theorem Matched.straysFirst_iff {level : Int} {marks : List Mark} (matched : Matched level marks) :
    StraysFirst level marks ↔ Strays level marks := by
  refine ⟨StraysFirst.strays, ?_⟩
  intro found
  obtain ⟨front, c, first, precedes⟩ := found
  refine ⟨front, c, first, precedes, ?_⟩
  intro earlier before
  exact matched earlier (before.trans ((List.prefix_append front _).trans first))

end Mark

namespace Tail

/-- What reading comes to, where `strays` is the error that comes first. -/
inductive Verdict (balanced strays : Prop) : Except (Part × Fault) Pending → Prop where
  | accepted {pending : Pending} (closed : balanced) (clear : ¬ strays) :
      Verdict balanced strays (.ok pending)
  | stray (found : strays) : Verdict balanced strays (.error (.subfield, .missingDollar))
  | unbalanced (unclosed : ¬ balanced) (clear : ¬ strays) :
      Verdict balanced strays (.error (.path, .unbalanced))

namespace Verdict

variable {balanced strays : Prop} {reading : Except (Part × Fault) Pending}

/-- What is put in front of the rest of a text does not change the verdict on it. -/
theorem before (verdict : Verdict balanced strays reading) (add : Pending → Pending) :
    Verdict balanced strays (do let next ← reading; return add next) := by
  cases verdict with
  | accepted closed clear => exact .accepted closed clear
  | stray found => exact .stray found
  | unbalanced unclosed clear => exact .unbalanced unclosed clear

theorem congr {balanced' strays' : Prop} (verdict : Verdict balanced strays reading)
    (sameBalance : balanced' ↔ balanced) (sameStrays : strays' ↔ strays) :
    Verdict balanced' strays' reading := by
  rwa [propext sameBalance, propext sameStrays]

end Verdict

open Mark

theorem read_verdict (inToken : Bool) (depth : Nat) (marks : List Mark) :
    Verdict (Balanced depth marks) (inToken = false ∧ StraysFirst depth marks)
      (read inToken depth marks) := by
  fun_induction read inToken depth marks with
  | case1 inToken =>
    exact .accepted (balanced_nil.mpr rfl) fun found => not_straysFirst_nil found.2
  | case2 inToken rest ih =>
    apply (ih.before _).congr
    · simp [balanced_cons, balance]
    · simp [straysFirst_cons, balance, isPlain]
  | case3 inToken rest =>
    refine .unbalanced ?_ ?_
    · intro balanced
      exact absurd (matched_cons.mp balanced.1).2.level_nonneg (by decide)
    · intro found
      rcases (straysFirst_cons.mp found.2).2 with ⟨_, isPlain⟩ | ⟨_, found⟩
      · cases isPlain
      · exact absurd found.level_nonneg (by decide)
  | case4 inToken rest ih =>
    apply (ih.before _).congr
    · simp [balanced_cons, balance]
    · simp [straysFirst_cons, balance, isPlain]
  | case5 c rest ih =>
    apply (ih.before _).congr
    · simp [balanced_cons, balance]
    · simp
  | case6 inToken c rest outside =>
    apply Verdict.stray
    refine ⟨by simpa using outside, straysFirst_cons.mpr ⟨by simp, .inl ⟨rfl, rfl⟩⟩⟩
  | case7 inToken depth =>
    refine .unbalanced ?_ ?_
    · rw [balanced_nil]
      omega
    · exact fun found => not_straysFirst_nil found.2
  | case8 inToken depth mark rest ih =>
    have inside : (0 : Int) < ((depth + 1 : Nat) : Int) := by omega
    apply (ih.before _).congr
    · apply (balanced_cons_inside inside).trans
      refine iff_of_eq (congrArg (Balanced · rest) ?_)
      cases mark <;> simp only [balance] <;> omega
    · apply and_congr_right
      intro _
      apply (straysFirst_cons_inside inside).trans
      refine iff_of_eq (congrArg (StraysFirst · rest) ?_)
      cases mark <;> simp only [balance] <;> omega

/-- The verdict on a whole tail, as its reader gives it. -/
theorem parse_cases (text : Text) :
    (∃ tail, Tail.parse text = .ok tail ∧ Balanced 0 (ofText none text) ∧
        ¬ StraysFirst 0 (ofText none text)) ∨
      (Tail.parse text = violates .subfield .missingDollar text ∧ StraysFirst 0 (ofText none text)) ∨
      (Tail.parse text = violates .path .unbalanced text ∧ ¬ Balanced 0 (ofText none text) ∧
        ¬ StraysFirst 0 (ofText none text)) := by
  have verdict : Verdict (Balanced 0 (ofText none text)) (StraysFirst 0 (ofText none text))
      (read false 0 (ofText none text)) := by
    simpa using read_verdict false 0 (ofText none text)
  unfold Tail.parse
  generalize read false 0 (ofText none text) = reading at verdict
  cases verdict with
  | accepted closed clear => exact .inl ⟨_, rfl, closed, clear⟩
  | stray found => exact .inr (.inl ⟨rfl, found⟩)
  | unbalanced unclosed clear => exact .inr (.inr ⟨rfl, unclosed, clear⟩)

theorem exists_parse_iff (text : Text) :
    (∃ tail, Tail.parse text = .ok tail) ↔
      Balanced 0 (ofText none text) ∧ ¬ Strays 0 (ofText none text) := by
  have same : Balanced 0 (ofText none text) →
      (StraysFirst 0 (ofText none text) ↔ Strays 0 (ofText none text)) :=
    fun balanced => balanced.1.straysFirst_iff
  rcases parse_cases text with ⟨tail, found, closed, clear⟩ | ⟨failed, found⟩ | ⟨failed, unclosed, -⟩
  · simp [found, closed, ← same closed, clear]
  · simp [failed, violates, found.strays]
  · simp [failed, violates, unclosed]

theorem parse_eq_missingDollar_iff (text : Text) :
    Tail.parse text = violates .subfield .missingDollar text ↔ StraysFirst 0 (ofText none text) := by
  rcases parse_cases text with ⟨tail, found, -, clear⟩ | ⟨failed, found⟩ | ⟨failed, -, clear⟩
  · simp [found, violates, clear]
  · simp [failed, found]
  · simp [failed, violates, clear]

theorem parse_eq_unbalanced_iff (text : Text) :
    Tail.parse text = violates .path .unbalanced text ↔
      ¬ Balanced 0 (ofText none text) ∧ ¬ StraysFirst 0 (ofText none text) := by
  rcases parse_cases text with ⟨tail, found, closed, -⟩ | ⟨failed, found⟩ | ⟨failed, unclosed, clear⟩
  · simp [found, violates, closed]
  · simp [failed, violates, found]
  · simp [failed, unclosed, clear]

theorem not_straysFirst_of_dollar (rest : Text) :
    ¬ StraysFirst 0 (ofText none ('$' :: rest)) := by
  simp [ofText, ofChar, isShielded, straysFirst_cons, isPlain]

/-- The reader accepts a text whose brackets are balanced and in which no plain character stands where
no token has begun. Such a character is its error if it comes before any bracket that closes none, and
the brackets are in every other case. A text that begins with a dollar has no such character. -/
theorem parse_verdict (text : Text) :
    ((∃ tail, Tail.parse text = .ok tail) ↔
        Balanced 0 (ofText none text) ∧ ¬ Strays 0 (ofText none text)) ∧
      (Tail.parse text = violates .subfield .missingDollar text ↔
        StraysFirst 0 (ofText none text)) ∧
      (Tail.parse text = violates .path .unbalanced text ↔
        ¬ (Balanced 0 (ofText none text) ∧ ¬ Strays 0 (ofText none text)) ∧
          ¬ StraysFirst 0 (ofText none text)) ∧
      ∀ rest,
        (Tail.parse ('$' :: rest) = violates .path .unbalanced ('$' :: rest) ↔
            ¬ Balanced 0 (ofText none ('$' :: rest))) ∧
          Tail.parse ('$' :: rest) ≠ violates .subfield .missingDollar ('$' :: rest) := by
  refine ⟨exists_parse_iff text, parse_eq_missingDollar_iff text, ?_, ?_⟩
  · rw [parse_eq_unbalanced_iff]
    apply and_congr_left
    intro clear
    constructor
    · intro unclosed accepted
      exact unclosed accepted.1
    · intro refused closed
      exact refused ⟨closed, closed.1.straysFirst_iff.not.mp clear⟩
  · intro rest
    have begun := not_straysFirst_of_dollar rest
    refine ⟨?_, ?_⟩
    · rw [parse_eq_unbalanced_iff, and_iff_left begun]
    · intro failed
      exact begun ((parse_eq_missingDollar_iff _).mp failed)

/-- Both errors are there, and the one that comes first is given. -/
example : Tail.parse "{$b}x\x7d".toList = violates .subfield .missingDollar "{$b}x\x7d".toList := rfl

end Tail
end MarcPath
