import MarcPath.Text.Blank

/-! Text as a list of characters, with the few operations the notation needs: stripping blanks,
cutting at separators, and locating a part inside a whole. -/
namespace MarcPath

/-- A text is the list of its characters, so lengths and columns count characters. -/
abbrev Text := List Char

namespace Text

/-- Drops the characters that satisfy `drop` from both ends. -/
def trim (drop : Char → Bool) (text : Text) : Text :=
  ((text.dropWhile drop).reverse.dropWhile drop).reverse

/-- Drops the blanks at both ends. -/
def strip (text : Text) : Text :=
  trim isBlank text

def hasBlank (text : Text) : Bool :=
  text.any isBlank

/-- Cuts a text at each character that `cuts` selects; `cuts` also sees the character before.
There is always a first piece, so the result is that piece and the pieces after the cuts. -/
def splitAfter (cuts : Option Char → Char → Bool) (before : Option Char) : Text → Text × List Text
  | [] => ([], [])
  | c :: rest =>
    let (first, others) := splitAfter cuts (some c) rest
    if cuts before c then ([], first :: others) else (c :: first, others)

/-- Pieces that were cut at one character give back the text once it is put between them. -/
theorem intercalate_splitAfter (separator : Char) (cuts : Option Char → Char → Bool)
    (only : ∀ before c, cuts before c = true → c = separator) (before : Option Char) (text : Text) :
    List.intercalate [separator]
      ((splitAfter cuts before text).1 :: (splitAfter cuts before text).2) = text := by
  induction text generalizing before with
  | nil => rfl
  | cons c rest ih =>
    have joined := ih (some c)
    simp only [splitAfter]
    split
    · rename_i cut
      rw [List.intercalate_cons_cons, joined, only before c cut]
      rfl
    · generalize (splitAfter cuts (some c) rest).2 = others at joined ⊢
      cases others with
      | nil => simpa using joined
      | cons next more => simpa using joined

/-- Cuts a text at every occurrence of one character. -/
def splitOn (separator : Char) (text : Text) : Text × List Text :=
  splitAfter (fun _ c => c == separator) none text

/-- The column at which `part` first occurs in a text. -/
def columnOf? (part : Text) : Text → Option Nat
  | [] => if part.isEmpty then some 0 else none
  | c :: rest => if part.isPrefixOf (c :: rest) then some 0 else (columnOf? part rest).map (· + 1)

/-- A column that was found is where `part` stands. -/
theorem exists_of_columnOf? {part text : Text} {column : Nat}
    (found : columnOf? part text = some column) :
    ∃ before after, text = before ++ part ++ after ∧ before.length = column := by
  induction text generalizing column with
  | nil =>
    simp only [columnOf?] at found
    split at found
    · rename_i empty
      exact ⟨[], [], by simp_all, by simp_all⟩
    · simp at found
  | cons c rest ih =>
    simp only [columnOf?] at found
    split at found
    · rename_i here
      obtain ⟨after, whole⟩ := List.isPrefixOf_iff_prefix.mp here
      exact ⟨[], after, by simp [whole], by simp_all⟩
    · obtain ⟨further, later, rfl⟩ := Option.map_eq_some_iff.mp found
      obtain ⟨before, after, whole, place⟩ := ih later
      exact ⟨c :: before, after, by simp [whole], by simp [place]⟩

/-- What stands before the last occurrence of a character. -/
def beforeLast (mark : Char) : Text → Option Text
  | [] => none
  | c :: rest =>
    match beforeLast mark rest with
    | some kept => some (c :: kept)
    | none => if c == mark then some [] else none

theorem beforeLast_eq_none_iff {mark : Char} {text : Text} :
    beforeLast mark text = none ↔ mark ∉ text := by
  induction text with
  | nil => simp [beforeLast]
  | cons c rest ih =>
    unfold beforeLast
    split
    · rename_i kept found
      have member : mark ∈ rest := by
        rw [found] at ih
        simpa using ih
      simp [member]
    · rename_i missing
      have absent : mark ∉ rest := ih.mp missing
      by_cases same : c = mark
      · simp [same]
      · simp [same, absent, Ne.symm same]

theorem beforeLast_append {mark : Char} {rest : Text} (kept : Text) (absent : mark ∉ rest) :
    beforeLast mark (kept ++ mark :: rest) = some kept := by
  induction kept with
  | nil => simp [beforeLast, beforeLast_eq_none_iff.mpr absent]
  | cons c kept ih => simp [beforeLast, ih]

/-- What stands before and after the first occurrence of a character. -/
def cutFirst? (mark : Char) : Text → Option (Text × Text)
  | [] => none
  | c :: rest =>
    if c == mark then some ([], rest)
    else (cutFirst? mark rest).map fun (kept, after) => (c :: kept, after)

theorem cutFirst?_eq_some_iff {mark : Char} {text kept after : Text} :
    cutFirst? mark text = some (kept, after) ↔ text = kept ++ mark :: after ∧ mark ∉ kept := by
  induction text generalizing kept with
  | nil => simp [cutFirst?]
  | cons c rest ih =>
    by_cases same : c = mark
    · cases kept with
      | nil => simp [cutFirst?, same]
      | cons first kept =>
        simp only [cutFirst?, same, BEq.rfl, if_true, List.cons_append, List.cons.injEq]
        constructor
        · intro found
          simp at found
        · rintro ⟨⟨rfl, _⟩, absent⟩
          simp at absent
    · cases kept with
      | nil => simp [cutFirst?, same]
      | cons first kept => simp [cutFirst?, same, ih]; grind

/-- A text without the line feed that ends it. -/
def chomp (text : Text) : Text :=
  if text.getLast? == some '\n' then text.dropLast else text

end Text
end MarcPath
