import MarcPath.Proofs.Bracket
import MarcPath.Proofs.Outcome
import MarcPath.Segment

/-! The grammar of a tail beside the reader of one. A derivation of `Scan` cuts a text at its dollars,
its groups and its other characters; the reader finds the one derivation there is. -/
namespace MarcPath.Tail

/-- The text that follows the character `before` is made up of `pending`. A derivation takes off one
group, one dollar or one other character at a time. -/
inductive Scan : (before : Option Char) → (inToken : Bool) → Text → Pending → Prop where
  | done {before : Option Char} {inToken : Bool} : Scan before inToken [] ⟨[], [], [], []⟩
  | group {before : Option Char} {inToken : Bool} {body text : Text} {next : Pending}
      (free : isShielded before = false) (closes : Mark.Closes 0 (Mark.ofText (some '{') body))
      (later : Scan (some '}') inToken text next) :
      Scan before inToken ('{' :: (body ++ text))
        { next with groups := ('{' :: body) :: next.groups }
  | dollar {before : Option Char} {inToken : Bool} {text : Text} {next : Pending}
      (free : isShielded before = false) (later : Scan (some '$') true text next) :
      Scan before inToken ('$' :: text)
        ⟨[], [], [], ⟨'$' :: next.token, next.groups⟩ :: next.segments⟩
  | plain {before : Option Char} {c : Char} {text : Text} {next : Pending}
      (plain : Mark.ofChar before c = .plain c) (later : Scan (some c) true text next) :
      Scan before true (c :: text) { next with token := c :: next.token }

/-- Puts a group in front of what is read after it. -/
private def Pending.within (body : Text) (next : Pending) : Pending :=
  { next with group := body ++ next.group }

private theorem read_append {inToken : Bool} {depth : Nat} {marks : List Mark}
    (closes : Mark.Closes depth marks) (rest : List Mark) :
    read inToken (depth + 1) (marks ++ rest) =
      (read inToken 0 rest).map (Pending.within (marks.map Mark.char)) := by
  have step (body : Text) (c : Char) (reading : Except (Part × Fault) Pending) :
      (do
        let next ← reading.map (Pending.within body)
        return { next with group := c :: next.group }) =
      reading.map (Pending.within (c :: body)) := by
    cases reading <;> rfl
  induction closes with
  | last =>
    simp only [List.singleton_append, read]
    cases read inToken 0 rest <;> rfl
  | opening deeper ih => simp only [List.cons_append, read, ih, step, List.map_cons]
  | closing outer ih => simp only [List.cons_append, read, ih, step, List.map_cons]
  | @other depth marks mark flat later ih =>
    cases mark with
    | opening => simp [Mark.isBracket] at flat
    | closing => simp [Mark.isBracket] at flat
    | dollar => simp only [List.cons_append, read, ih, step, List.map_cons]
    | plain c => simp only [List.cons_append, read, ih, step, List.map_cons]

/-- Inside of a group the reader gets to the bracket that closes it. -/
private theorem closes_of_read {inToken : Bool} {depth : Nat} {before : Option Char} {text : Text}
    {pending : Pending}
    (found : read inToken (depth + 1) (Mark.ofText before text) = .ok pending) :
    ∃ body rest, text = body ++ rest ∧ Mark.Closes depth (Mark.ofText before body) := by
  induction text generalizing depth before pending with
  | nil => simp [Mark.ofText, read] at found
  | cons c text ih =>
    cases mark : Mark.ofChar before c with
    | opening =>
      simp only [Mark.ofText, mark, read] at found
      obtain ⟨next, deeper, -⟩ := bind_eq_ok_iff.mp found
      obtain ⟨body, rest, rfl, closes⟩ := ih deeper
      exact ⟨c :: body, rest, rfl, by simpa only [Mark.ofText, mark] using .opening closes⟩
    | closing =>
      cases depth with
      | zero => exact ⟨[c], text, rfl, by simpa only [Mark.ofText, mark] using .last⟩
      | succ depth =>
        simp only [Mark.ofText, mark, read] at found
        obtain ⟨next, outer, -⟩ := bind_eq_ok_iff.mp found
        obtain ⟨body, rest, rfl, closes⟩ := ih outer
        exact ⟨c :: body, rest, rfl, by simpa only [Mark.ofText, mark] using .closing closes⟩
    | dollar =>
      simp only [Mark.ofText, mark, read] at found
      obtain ⟨next, later, -⟩ := bind_eq_ok_iff.mp found
      obtain ⟨body, rest, rfl, closes⟩ := ih later
      exact ⟨c :: body, rest, rfl, by simpa only [Mark.ofText, mark] using .other rfl closes⟩
    | plain p =>
      simp only [Mark.ofText, mark, read] at found
      obtain ⟨next, later, -⟩ := bind_eq_ok_iff.mp found
      obtain ⟨body, rest, rfl, closes⟩ := ih later
      exact ⟨c :: body, rest, rfl, by simpa only [Mark.ofText, mark] using .other rfl closes⟩

namespace Scan

variable {before : Option Char} {inToken : Bool} {text : Text} {pending : Pending}

/-- No group is open where a derivation begins. -/
theorem group_eq_nil (scan : Scan before inToken text pending) : pending.group = [] := by
  induction scan with
  | done => rfl
  | group free closes later ih => exact ih
  | dollar free later ih => rfl
  | plain plain later ih => exact ih

theorem read_eq (scan : Scan before inToken text pending) :
    read inToken 0 (Mark.ofText before text) = .ok pending := by
  induction scan with
  | done => rfl
  | @group before inToken body text next free closes later ih =>
    have none := later.group_eq_nil
    simp only [closes.ofText_group free, read, read_append closes, ih, Except.map, bind, Except.bind,
      pure, Except.pure, Pending.within, Mark.map_char_ofText, none, List.append_nil]
  | @dollar before inToken text next free later ih =>
    simp [Mark.ofText_dollar free, read, ih, bind, Except.bind, pure, Except.pure]
  | plain plain later ih =>
    simp [Mark.ofText, plain, read, ih, bind, Except.bind, pure, Except.pure]

theorem of_read (found : read inToken 0 (Mark.ofText before text) = .ok pending) :
    Scan before inToken text pending := by
  -- A group is passed over as a whole, so the induction is on the length of what is left.
  induction size : text.length using Nat.strongRecOn
    generalizing text before inToken pending with
  | ind size ih =>
    subst size
    cases text with
    | nil =>
      cases Except.ok.inj found
      exact .done
    | cons c text =>
      cases mark : Mark.ofChar before c with
      | opening =>
        obtain rfl : c = '{' := Mark.ofChar_eq mark
        have free : isShielded before = false :=
          Mark.unshielded_of_not_plain (c := '{') (by rw [mark]; rfl)
        simp only [Mark.ofText, mark, read] at found
        obtain ⟨inner, opened, found⟩ := bind_eq_ok_iff.mp found
        obtain ⟨body, rest, rfl, closes⟩ := closes_of_read opened
        rw [Mark.ofText_append, closes.lastFrom_eq, read_append closes, Mark.map_char_ofText] at opened
        obtain ⟨next, later, rfl⟩ := map_eq_ok_iff.mp opened
        have scan := ih rest.length (by simp only [List.length_cons, List.length_append]; omega)
          later rfl
        have none := scan.group_eq_nil
        obtain rfl := Except.ok.inj found
        simpa only [Pending.within, none, List.append_nil] using Scan.group free closes scan
      | closing => simp [Mark.ofText, mark, read] at found
      | dollar =>
        obtain rfl : c = '$' := Mark.ofChar_eq mark
        have free : isShielded before = false :=
          Mark.unshielded_of_not_plain (c := '$') (by rw [mark]; rfl)
        simp only [Mark.ofText, mark, read] at found
        obtain ⟨next, later, found⟩ := bind_eq_ok_iff.mp found
        obtain rfl := Except.ok.inj found
        exact .dollar free (ih text.length (by simp) later rfl)
      | plain p =>
        obtain rfl : c = p := Mark.ofChar_eq mark
        cases inToken with
        | false => simp [Mark.ofText, mark, read] at found
        | true =>
          simp only [Mark.ofText, mark, read, ↓reduceIte] at found
          obtain ⟨next, later, found⟩ := bind_eq_ok_iff.mp found
          obtain rfl := Except.ok.inj found
          exact .plain mark (ih text.length (by simp) later rfl)

end Scan

/-- Before the first dollar there is no token. -/
theorem Scan.token_eq_nil {before : Option Char} {text : Text} {pending : Pending}
    (scan : Scan before false text pending) : pending.token = [] := by
  generalize outside : false = inToken at scan
  induction scan with
  | done => rfl
  | group free closes later ih => exact ih outside
  | dollar free later ih => rfl
  | plain plain later ih => cases outside

/-- The reader succeeds exactly on the texts that have a derivation, with what that derives. -/
theorem parse_eq_ok_iff {text : Text} {tail : Tail} :
    Tail.parse text = .ok tail ↔ Scan none false text ⟨[], [], tail.groups, tail.segments⟩ := by
  unfold Tail.parse
  split
  · rename_i pending found
    have scan := Scan.of_read found
    have known : pending = ⟨[], [], pending.groups, pending.segments⟩ := by
      rcases pending with ⟨token, group, groups, segments⟩
      obtain rfl := scan.token_eq_nil
      obtain rfl := scan.group_eq_nil
      rfl
    constructor
    · intro same
      obtain rfl := Except.ok.inj same
      exact known ▸ scan
    · intro other
      have same := Except.ok.inj (scan.read_eq.symm.trans other.read_eq)
      rw [same]
  · rename_i part fault failed
    constructor
    · intro same
      cases same
    · intro scan
      have read := scan.read_eq
      rw [failed] at read
      cases read

end MarcPath.Tail
