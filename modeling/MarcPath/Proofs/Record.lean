import MarcPath.Proofs.Misread

/-! Data trees that hang together. In a record a length is the number of positions from the start to
the end beside it, and no number of the tree is large. -/
namespace MarcPath

namespace Span

/-- How the keys of the entries of a span end. -/
def keyNames : List Text :=
  ["_start".toList, "_end".toList, "_length".toList]

/-- Whether a key is one that the entries of a span have under a label. -/
def isKey (label key : Text) : Bool :=
  keyNames.any fun name => label ++ name == key

end Span

namespace Tree

/-- What a record says under a label of a length: it counts the positions from the start to the end,
which is the start itself unless another is given, and there is at least one. -/
def AgreesOn (label : Text) (record : List (Text × Tree)) : Prop :=
  ∀ length, record.lookup (label ++ "_length".toList) = some length →
    ∃ start stop : Int, record.lookup (label ++ "_start".toList) = some (.number start) ∧
      (record.lookup (label ++ "_end".toList)).getD (.number start) = .number stop ∧
      length = .number (stop - start + 1) ∧ 1 ≤ stop - start + 1

/-- No record of a tree disagrees with itself about a length, and no number is greater than what can
be counted with so many digits. -/
inductive Sound (digits : Nat) : Tree → Prop where
  | null : Sound digits .null
  | number {value : Int} (small : value.natAbs ≤ 10 ^ digits) : Sound digits (.number value)
  | text (value : Text) : Sound digits (.text value)
  | list {items : List Tree} (all : ∀ item ∈ items, Sound digits item) : Sound digits (.list items)
  | record {entries : List (Text × Tree)} (all : ∀ entry ∈ entries, Sound digits entry.2)
      (index : AgreesOn "index".toList entries) (char : AgreesOn "char".toList entries) :
      Sound digits (.record entries)

/-- The entries have no keys of a span under a label. -/
def Free (label : Text) (entries : List (Text × Tree)) : Prop :=
  ∀ entry ∈ entries, Span.isKey label entry.1 = false

variable {label : Text} {front back entries : List (Text × Tree)} {digits : Nat}

theorem lookup_of_free (free : Free label entries) {name : Text} (member : name ∈ Span.keyNames) :
    entries.lookup (label ++ name) = none := by
  rw [List.lookup_eq_none_iff]
  intro entry inside
  have apart := free entry inside
  rw [Span.isKey, List.any_eq_false] at apart
  simpa using apart name member

namespace AgreesOn

theorem of_free (free : Free label entries) : AgreesOn label entries := by
  intro length found
  rw [lookup_of_free free (by simp [Span.keyNames])] at found
  cases found

/-- Entries with other keys change nothing, wherever they stand. -/
theorem append_left (free : Free label front) (agrees : AgreesOn label back) :
    AgreesOn label (front ++ back) := by
  have same {name : Text} (member : name ∈ Span.keyNames) :
      (front ++ back).lookup (label ++ name) = back.lookup (label ++ name) := by
    rw [List.lookup_append, lookup_of_free free member, Option.none_or]
  unfold AgreesOn
  rw [same (by simp [Span.keyNames]), same (by simp [Span.keyNames]), same (by simp [Span.keyNames])]
  exact agrees

theorem append_right (agrees : AgreesOn label front) (free : Free label back) :
    AgreesOn label (front ++ back) := by
  have same {name : Text} (member : name ∈ Span.keyNames) :
      (front ++ back).lookup (label ++ name) = front.lookup (label ++ name) := by
    rw [List.lookup_append, lookup_of_free free member, Option.or_none]
  unfold AgreesOn
  rw [same (by simp [Span.keyNames]), same (by simp [Span.keyNames]), same (by simp [Span.keyNames])]
  exact agrees

end AgreesOn

private theorem numbersOfItems_eq (items : List Tree) :
    numbersOfItems items = items.flatMap numbers := by
  induction items with
  | nil => rfl
  | cons item rest ih => rw [numbersOfItems, ih, List.flatMap_cons]

private theorem numbersOfEntries_eq (entries : List (Text × Tree)) :
    numbersOfEntries entries = entries.flatMap fun entry => entry.2.numbers := by
  induction entries with
  | nil => rfl
  | cons entry rest ih => rw [numbersOfEntries, ih, List.flatMap_cons]

theorem Sound.natAbs_le {tree : Tree} (sound : Sound digits tree) :
    ∀ number ∈ tree.numbers, number.natAbs ≤ 10 ^ digits := by
  induction sound with
  | null => simp [numbers]
  | number small => simpa [numbers] using small
  | text value => simp [numbers]
  | list all ih =>
    intro number member
    rw [numbers, numbersOfItems_eq] at member
    obtain ⟨item, inside, member⟩ := List.mem_flatMap.mp member
    exact ih item inside number member
  | record all index char ih =>
    intro number member
    rw [numbers, numbersOfEntries_eq] at member
    obtain ⟨entry, inside, member⟩ := List.mem_flatMap.mp member
    exact ih entry inside number member

/-- A record that says nothing of lengths. -/
theorem Sound.of_free (all : ∀ entry ∈ entries, Sound digits entry.2)
    (index : Free "index".toList entries) (char : Free "char".toList entries) :
    Sound digits (.record entries) :=
  .record all (.of_free index) (.of_free char)

end Tree

/-- A span as it is read from a text without blanks or long runs of digits. -/
structure Span.Legible (limit : Nat) (span : Span) : Prop where
  known : span.WellFormed
  solid : span.render.hasBlank = false
  within : Text.DigitsWithin limit span.render

/-- The entries of a span under a label. -/
structure Tree.Describes (digits : Nat) (label : Text) (entries : List (Text × Tree)) : Prop where
  keys : ∀ entry ∈ entries, ∃ name ∈ Span.keyNames, entry.1 = label ++ name
  sound : ∀ entry ∈ entries, Sound digits entry.2
  agrees : AgreesOn label entries

namespace Span

variable {limit : Nat} {span : Span}

/-- A span is as legible as the text it stands in. -/
theorem Legible.of_part {text : Text} (known : span.WellFormed) (inside : span.render <:+: text)
    (solid : text.hasBlank = false) (within : Text.DigitsWithin limit text) : span.Legible limit :=
  ⟨known, Text.hasBlank_of_infix inside solid, within.of_part inside⟩

/-- A position of a legible span is the last one, or a number with few enough digits. -/
theorem positionTree_cases {position : Text} (le : limit ≤ Numeral.maxDigits)
    (known : isPosition position = true) (solid : position.hasBlank = false)
    (within : Text.DigitsWithin limit position) :
    (isLast position = true ∧ positionTree position = .ok (.text position)) ∨
      ∃ number : Nat, number < 10 ^ limit ∧ isLast position = false ∧
        numberOf position = .ok (number : Int) ∧
          positionTree position = .ok (.number (number : Int)) := by
  by_cases last : isLast position = true
  · exact .inl ⟨last, by rw [positionTree, if_pos last]⟩
  · obtain ⟨nonempty, digits⟩ := (position_cases known solid).resolve_left last
    have short := within position List.infix_rfl digits
    have read : numberOf position = .ok (Numeral.digitsValue position : Int) := by
      rw [numberOf_digits digits nonempty, if_neg (by omega)]
    refine .inr ⟨Numeral.digitsValue position, ?_, by simpa using last, read, ?_⟩
    · exact (Numeral.digitsValue_lt position).trans_le (Nat.pow_le_pow_right (by decide) short)
    · rw [positionTree, if_neg last, read]
      rfl

private theorem lookup_cons {label name key : Text} {value : Tree} {rest : List (Text × Tree)} :
    List.lookup (label ++ name) ((label ++ key, value) :: rest) =
      if name = key then some value else rest.lookup (label ++ name) := by
  by_cases same : name = key
  · simp [same]
  · have apart : (label ++ name == label ++ key) = false := by simpa using same
    rw [List.lookup_cons, apart, if_neg same]

private theorem describes_of_no_length {digits : Nat} (label : Text) {start : Tree}
    (stop : Option Tree) (sound : Tree.Sound digits start)
    (sound' : ∀ tree ∈ stop, Tree.Sound digits tree) :
    Tree.Describes digits label
      ((label ++ "_start".toList, start) :: (stop.map (label ++ "_end".toList, ·)).toList) := by
  cases stop with
  | none =>
    refine ⟨by simp [keyNames], by simpa using sound, ?_⟩
    intro length found
    simp [lookup_cons] at found
  | some final =>
    refine ⟨by simp [keyNames], by simpa using ⟨sound, sound' final rfl⟩, ?_⟩
    intro length found
    simp [lookup_cons] at found

private theorem describes_of_length {digits start stop : Nat} (label : Text) (le : start ≤ stop)
    (small : stop < 10 ^ digits) (final : Option Tree) (sound : ∀ tree ∈ final, Tree.Sound digits tree)
    (given : final.getD (.number start) = .number stop) :
    Tree.Describes digits label ((label ++ "_start".toList, .number start) ::
      (final.map (label ++ "_end".toList, ·)).toList ++
        [(label ++ "_length".toList, .number ((stop : Int) - start + 1))]) := by
  have first : Tree.Sound digits (.number (start : Int)) := .number (by omega)
  have length : Tree.Sound digits (.number ((stop : Int) - start + 1)) := .number (by omega)
  refine ⟨?_, ?_, ?_⟩
  · cases final <;> simp [keyNames]
  · cases final with
    | none => simpa using ⟨first, length⟩
    | some tree => simpa using ⟨first, sound tree rfl, length⟩
  · intro count found
    refine ⟨start, stop, by simp, ?_, ?_, by omega⟩
    · cases final <;> simpa [lookup_cons] using given
    · have same : some (Tree.number ((stop : Int) - start + 1)) = some count := by
        rw [← found]
        cases final <;> simp [lookup_cons]
      exact (Option.some.inj same).symm

theorem entries_outcome (le : limit ≤ Numeral.maxDigits) (legible : span.Legible limit)
    (label : Text) :
    Outcome (Tree.Describes limit label) (fun _ => False) (span.entries label) := by
  obtain ⟨known, solid, within⟩ := legible
  rcases span with ⟨start, _ | stop⟩
  · rcases positionTree_cases le known.start solid within with
      ⟨last, tree⟩ | ⟨first, small, numbered, read, tree⟩
    · simp only [entries, Span.length, tree, last, ↓reduceIte]
      exact describes_of_no_length label none (.text start) (by simp)
    · simp only [entries, Span.length, tree, numbered, Bool.false_eq_true, ↓reduceIte]
      have described := describes_of_length label (le_refl first) small none (by simp) rfl
      rw [Int.sub_self] at described
      exact described
  · have front : start <:+: render ⟨start, some stop⟩ := ⟨[], '-' :: stop, by simp [render]⟩
    have behind : stop <:+: render ⟨start, some stop⟩ := ⟨start ++ ['-'], [], by simp [render]⟩
    have starts := positionTree_cases le known.start (Text.hasBlank_of_infix front solid)
      (within.of_part front)
    have stops := positionTree_cases le (known.stop stop rfl) (Text.hasBlank_of_infix behind solid)
      (within.of_part behind)
    rcases starts with ⟨last, tree⟩ | ⟨first, small, numbered, read, tree⟩
    · rcases stops with ⟨last', tree'⟩ | ⟨final, small', numbered', read', tree'⟩
      · simp only [entries, Span.length, Option.mapM_some, tree, tree', last, ↓reduceIte]
        exact describes_of_no_length label (some (.text stop)) (.text start) (by simp [Tree.Sound.text])
      · simp only [entries, Span.length, Option.mapM_some, tree, tree', last, ↓reduceIte]
        exact describes_of_no_length label (some (.number (final : Int))) (.text start)
          (by simpa using .number (by omega))
    · rcases stops with ⟨last', tree'⟩ | ⟨final, small', numbered', read', tree'⟩
      · simp only [entries, Span.length, Option.mapM_some, tree, tree', numbered, last',
          Bool.false_eq_true, ↓reduceIte]
        exact describes_of_no_length label (some (.text stop)) (.number (by omega))
          (by simp [Tree.Sound.text])
      · have ordered := known.ordered
        simp only [isReversed, numbered, numbered', read, read', Bool.or_self, Bool.false_eq_true,
          ↓reduceIte] at ordered
        have forwards : first ≤ final := by simpa using Except.ok.inj ordered
        simp only [entries, Span.length, Option.mapM_some, tree, tree', numbered, numbered', read,
          read', Bool.false_eq_true, ↓reduceIte]
        exact describes_of_length label forwards small' (some (.number (final : Int)))
          (by simpa using .number (by omega)) rfl

private theorem digitsWithin_of_positionTree {position : Text} {tree : Tree}
    (known : isPosition position = true) (solid : position.hasBlank = false)
    (found : positionTree position = .ok tree) : Text.DigitsWithin Numeral.maxDigits position := by
  apply Text.DigitsWithin.of_length_le
  rcases position_cases known solid with last | ⟨nonempty, digits⟩
  · rw [beq_iff_eq.mp last]
    decide
  · by_contra short
    have long : Numeral.maxDigits < position.length := by omega
    have numbered : isLast position = false := by
      rw [isLast, beq_eq_false_iff_ne]
      rintro rfl
      exact absurd digits (by decide)
    rw [positionTree, numbered, numberOf_digits digits nonempty, if_pos long] at found
    cases found

/-- A span that can be described has no run of digits that is too long. -/
theorem digitsWithin_of_entries {label : Text} {entries : List (Text × Tree)}
    (known : span.WellFormed) (solid : span.render.hasBlank = false)
    (found : span.entries label = .ok entries) :
    Text.DigitsWithin Numeral.maxDigits span.render := by
  obtain ⟨start, first, found⟩ := bind_eq_ok_iff.mp found
  obtain ⟨stop, last, found⟩ := bind_eq_ok_iff.mp found
  rcases span with ⟨position, _ | final⟩
  · exact digitsWithin_of_positionTree known.start solid first
  · rw [Option.mapM_some] at last
    obtain ⟨tree, last, -⟩ := bind_eq_ok_iff.mp last
    have front : position.hasBlank = false :=
      Text.hasBlank_of_infix ⟨[], '-' :: final, by simp [render]⟩ solid
    have behind : final.hasBlank = false :=
      Text.hasBlank_of_infix ⟨position ++ ['-'], [], by simp [render]⟩ solid
    exact (digitsWithin_of_positionTree known.start front first).append_cons (by decide)
      (digitsWithin_of_positionTree (known.stop final rfl) behind last)

end Span
end MarcPath
