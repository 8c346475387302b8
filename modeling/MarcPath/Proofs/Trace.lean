import Mathlib.Data.List.Count
import MarcPath.Proofs.Tail

/-! Where each character of a tail goes. The reader puts a token together across its groups, so a record
answers to a stretch of the tail in two parts: what stands outside of brackets there is its token, and
what stands inside of them is its groups. -/
namespace MarcPath

namespace Mark

/-- Each mark of a text with whether it belongs to a group: it opens one, or stands in one. -/
def enclosed (level : Int) : List Mark → List (Mark × Bool)
  | [] => []
  | mark :: rest =>
    (mark, mark == opening || decide (0 < level)) :: enclosed (level + balance [mark]) rest

theorem map_enclosed (level : Int) (marks : List Mark) : (enclosed level marks).map (·.1) = marks := by
  induction marks generalizing level with
  | nil => rfl
  | cons mark rest ih => simp [enclosed, ih]

/-- The characters of a stretch that belong to no group. -/
def outside (stretch : List (Mark × Bool)) : Text :=
  (stretch.filter (!·.2)).map (·.1.char)

def inside (stretch : List (Mark × Bool)) : Text :=
  (stretch.filter (·.2)).map (·.1.char)

/-- The marks of a bracketed text: what opens it is closed by its last mark and not before. -/
structure IsBracketed (marks : List Mark) : Prop where
  opens : marks.head? = some opening
  within : ∀ front, front <+: marks → front ≠ [] → front ≠ marks → 0 < balance front
  closed : balance marks = 0
  closes : marks.getLast? = some closing

theorem enclosed_cons_inside {level : Int} (within : 0 < level) (mark : Mark) (rest : List Mark) :
    enclosed level (mark :: rest) = (mark, true) :: enclosed (level + balance [mark]) rest := by
  simp [enclosed, within]

namespace Closes

theorem enclosed_append {depth : Nat} {marks : List Mark} (closes : Closes depth marks)
    (rest : List Mark) :
    enclosed (depth + 1) (marks ++ rest) = marks.map (·, true) ++ enclosed 0 rest := by
  induction closes with
  | last => rfl
  | @opening depth marks deeper ih =>
    rw [List.cons_append, enclosed_cons_inside (by omega)]
    exact congrArg _ ih
  | @closing depth marks outer ih =>
    have level : ((depth + 1 : Nat) : Int) + 1 + balance [.closing] = depth + 1 := by
      simp only [balance]
      omega
    rw [List.cons_append, enclosed_cons_inside (by omega), level, ih]
    rfl
  | @other depth marks mark flat later ih =>
    have level : (depth : Int) + 1 + balance [mark] = depth + 1 := by
      rw [balance_flat flat, balance, Int.add_zero]
    rw [List.cons_append, enclosed_cons_inside (by omega), level, ih]
    rfl

/-- A group is enclosed as a whole, and what follows it is not. -/
theorem enclosed_group {marks : List Mark} (closes : Closes 0 marks) (rest : List Mark) :
    enclosed 0 (Mark.opening :: (marks ++ rest)) =
      (Mark.opening :: marks).map (·, true) ++ enclosed 0 rest :=
  congrArg _ (closes.enclosed_append rest)

end Closes
end Mark

/-- A group that is read is a bracketed text also on its own. -/
theorem IsGroup.isBracketed {group : Text} (known : IsGroup group) :
    Mark.IsBracketed (Mark.ofText none group) := by
  obtain ⟨body, rfl, closes⟩ := known
  change Mark.IsBracketed (.opening :: Mark.ofText (some '{') body)
  refine ⟨rfl, ?_, ?_, ?_⟩
  · intro front first begun unfinished
    rcases List.prefix_cons_iff.mp first with rfl | ⟨later, rfl, rest, parts⟩
    · exact absurd rfl begun
    · have more : rest ≠ [] := by
        rintro rfl
        exact unfinished (by rw [← parts, List.append_nil])
      have still := closes.open_before_last parts.symm more
      simp only [Mark.balance]
      omega
  · simp only [Mark.balance, closes.balance_eq]
    rfl
  · obtain ⟨front, same, -⟩ := closes.exists_append_closing
    rw [same, ← List.cons_append, List.getLast?_concat]

namespace Tail

open Mark

/-- The characters of a stretch are those of a token and of its groups, each in order. -/
structure Covers (stretch : List (Mark × Bool)) (token : Text) (groups : List Text) : Prop where
  outside : outside stretch = token
  inside : inside stretch = groups.flatten

namespace Covers

variable {stretch : List (Mark × Bool)} {token : Text} {groups : List Text}

theorem nil : Covers [] [] [] := ⟨rfl, rfl⟩

theorem group (covers : Covers stretch token groups) (marks : List Mark) :
    Covers (marks.map (·, true) ++ stretch) token (marks.map char :: groups) := by
  refine ⟨?_, ?_⟩
  · simpa [Mark.outside, List.filter_map, Function.comp_def] using covers.outside
  · simpa [Mark.inside, List.filter_map, Function.comp_def] using covers.inside

theorem outer (covers : Covers stretch token groups) (mark : Mark) :
    Covers ((mark, false) :: stretch) (mark.char :: token) groups := by
  refine ⟨?_, covers.inside⟩
  simpa [Mark.outside] using covers.outside

theorem eq_nil (covers : Covers stretch [] []) : stretch = [] := by
  cases stretch with
  | nil => rfl
  | cons place rest =>
    have outside := covers.outside
    have inside := covers.inside
    obtain ⟨mark, enclosed⟩ := place
    cases enclosed <;> simp [Mark.outside, Mark.inside] at outside inside

end Covers

namespace Scan

variable {before : Option Char} {inToken : Bool} {text : Text} {pending : Pending}

/-- A derivation takes each character to the token or to a group, and to the segment that is being read
when the character comes up. -/
theorem exists_stretches (scan : Scan before inToken text pending) :
    ∃ front stretches, front ++ stretches.flatten = enclosed 0 (ofText before text) ∧
      Covers front pending.token pending.groups ∧
      List.Forall₂ (fun stretch segment => Covers stretch segment.token segment.groups)
        stretches pending.segments := by
  induction scan with
  | done => exact ⟨[], [], rfl, .nil, .nil⟩
  | @group before inToken body text next free closes later ih =>
    obtain ⟨front, stretches, whole, covers, others⟩ := ih
    refine ⟨(ofText none ('{' :: body)).map (·, true) ++ front, stretches, ?_, ?_, others⟩
    · rw [closes.ofText_group free, closes.enclosed_group, ← whole, List.append_assoc]
      rfl
    · simpa only [map_char_ofText] using covers.group (ofText none ('{' :: body))
  | @dollar before inToken text next free later ih =>
    obtain ⟨front, stretches, whole, covers, others⟩ := ih
    refine ⟨[], ((.dollar, false) :: front) :: stretches, ?_, .nil, .cons (covers.outer .dollar) others⟩
    rw [ofText_dollar free]
    simpa [enclosed, balance] using whole
  | @plain before c text next plain later ih =>
    obtain ⟨front, stretches, whole, covers, others⟩ := ih
    refine ⟨(.plain c, false) :: front, stretches, ?_, covers.outer (.plain c), others⟩
    rw [ofText, plain]
    simpa [enclosed, balance] using whole

/-- Each dollar outside of brackets begins a segment. -/
theorem count_dollar (scan : Scan before inToken text pending) :
    (enclosed 0 (ofText before text)).count (.dollar, false) = pending.segments.length := by
  induction scan with
  | done => rfl
  | @group before inToken body text next free closes later ih =>
    have none : ((Mark.opening :: ofText (some '{') body).map (·, true)).count (.dollar, false) = 0 := by
      simp [List.count_eq_zero]
    rw [closes.ofText_group free, closes.enclosed_group, List.count_append, none, ih, Nat.zero_add]
  | @dollar before inToken text next free later ih =>
    rw [ofText_dollar free, List.length_cons, ← ih]
    exact List.count_cons_self
  | @plain before c text next plain later ih =>
    rw [ofText, plain, ← ih]
    exact List.count_cons_of_ne (by simp)

end Scan

/-- What is found in a tail, in order: a subfield token, or none where the groups are the field's own. -/
structure Record where
  token : Option Text
  groups : List Text
  deriving Repr, DecidableEq

def Record.ofSegment (segment : Segment) : Record :=
  ⟨some segment.token, segment.groups⟩

/-- A record has the characters of its stretch, and no others. -/
def Record.Describes (stretch : List (Mark × Bool)) (record : Record) : Prop :=
  Covers stretch (record.token.getD []) record.groups

def records (tail : Tail) : List Record :=
  (if tail.groups = [] then [] else [⟨none, tail.groups⟩]) ++ tail.segments.map .ofSegment

variable {text : Text} {tail : Tail}

theorem records_eq_map (none : tail.groups = []) : tail.records = tail.segments.map .ofSegment := by
  rw [records, if_pos none, List.nil_append]

theorem records_eq_cons (some : tail.groups ≠ []) :
    tail.records = ⟨none, tail.groups⟩ :: tail.segments.map .ofSegment := by
  rw [records, if_neg some, List.singleton_append]

theorem mem_records {record : Record} (member : record ∈ tail.records) :
    record = ⟨none, tail.groups⟩ ∨ ∃ segment ∈ tail.segments, .ofSegment segment = record := by
  by_cases none : tail.groups = []
  · rw [records_eq_map none] at member
    exact .inr (List.mem_map.mp member)
  · rw [records_eq_cons none] at member
    exact (List.mem_cons.mp member).imp_right List.mem_map.mp

theorem isSome_of_mem_drop {record : Record} (member : record ∈ tail.records.drop 1) :
    record.token.isSome = true := by
  have later : record ∈ tail.segments.map .ofSegment := by
    by_cases none : tail.groups = []
    · rw [records_eq_map none] at member
      exact List.mem_of_mem_drop member
    · rwa [records_eq_cons none] at member
  obtain ⟨segment, _, rfl⟩ := List.mem_map.mp later
  rfl

theorem length_filter_isSome :
    (tail.records.filter (·.token.isSome)).length = tail.segments.length := by
  have all : (tail.segments.map .ofSegment).filter (·.token.isSome) =
      tail.segments.map Record.ofSegment := by
    simp [Record.ofSegment]
  by_cases none : tail.groups = []
  · rw [records_eq_map none, all, List.length_map]
  · rw [records_eq_cons none, List.filter_cons_of_neg (by simp), all, List.length_map]

theorem exists_stretches (found : Tail.parse text = .ok tail) :
    ∃ stretches, stretches.flatten = enclosed 0 (ofText none text) ∧
      List.Forall₂ Record.Describes stretches tail.records := by
  obtain ⟨front, stretches, whole, covers, others⟩ := (parse_eq_ok_iff.mp found).exists_stretches
  have segments : List.Forall₂ Record.Describes stretches (tail.segments.map .ofSegment) :=
    List.forall₂_map_right_iff.mpr others
  by_cases none : tail.groups = []
  · -- Nothing stands before the first token, so there is no record for it.
    rw [none] at covers
    obtain rfl := covers.eq_nil
    rw [records_eq_map none]
    exact ⟨stretches, whole, segments⟩
  · rw [records_eq_cons none]
    exact ⟨front :: stretches, whole, .cons covers segments⟩

theorem token_of_mem_records {record : Record} {token : Text} (found : Tail.parse text = .ok tail)
    (member : record ∈ tail.records) (known : record.token = some token) :
    ∃ body, ofText none token = dollar :: body ∧ ∀ mark ∈ body, mark.isPlain = true := by
  rcases mem_records member with rfl | ⟨segment, source, rfl⟩
  · cases known
  · obtain ⟨body, same, plain⟩ := ((parse_eq_ok_iff.mp found).wellFormed segment source).token
    obtain rfl := Option.some.inj known
    exact ⟨ofText (some '$') body, by rw [same, ofText_dollar rfl], plain⟩

theorem holds_of_mem_records {record : Record} {group : Text} (member : record ∈ tail.records)
    (within : group ∈ record.groups) : tail.Holds group := by
  rcases mem_records member with rfl | ⟨segment, source, rfl⟩
  · exact .inl within
  · exact .inr ⟨segment, source, within⟩

/-- A tail that is read is cut into a stretch for each record, and the record has the characters of its
stretch: those outside of groups are its token, those inside are its groups. Only the first record may
have no token; the others are as many as there are dollars outside of groups. A dollar begins each token
and nothing else in it has a meaning, and a bracket opens each group that its last one closes. -/
theorem parse_trace (found : Tail.parse text = .ok tail) :
    (∃ stretches, stretches.flatten = enclosed 0 (ofText none text) ∧
      stretches.flatten.map (·.1.char) = text ∧
      List.Forall₂ Record.Describes stretches tail.records) ∧
      (∀ record ∈ tail.records.drop 1, record.token.isSome = true) ∧
      (tail.records.filter (·.token.isSome)).length =
        (enclosed 0 (ofText none text)).count (dollar, false) ∧
      (∀ record ∈ tail.records, ∀ token, record.token = some token →
        ∃ body, ofText none token = dollar :: body ∧ ∀ mark ∈ body, mark.isPlain = true) ∧
      ∀ record ∈ tail.records, ∀ group ∈ record.groups, IsBracketed (ofText none group) := by
  refine ⟨?_, fun record => isSome_of_mem_drop, ?_, ?_, ?_⟩
  · obtain ⟨stretches, whole, covers⟩ := exists_stretches found
    refine ⟨stretches, whole, ?_, covers⟩
    calc stretches.flatten.map (·.1.char)
        = ((enclosed 0 (ofText none text)).map (·.1)).map char := by rw [whole, List.map_map]; rfl
      _ = (ofText none text).map char := by rw [map_enclosed]
      _ = text := map_char_ofText none text
  · rw [length_filter_isSome, (parse_eq_ok_iff.mp found).count_dollar]
  · intro record member token known
    exact token_of_mem_records found member known
  · intro record member group within
    exact (isGroup_of_holds found (holds_of_mem_records member within)).isBracketed

/-- The token of the second record stands on both sides of its first group. -/
theorem parse_trace_of_interleaved :
    ∃ tail, Tail.parse "{$b}$a{$c}/0{x}$d".toList = .ok tail ∧
      tail.records = [⟨none, ["{$b}".toList]⟩, ⟨some "$a/0".toList, ["{$c}".toList, "{x}".toList]⟩,
        ⟨some "$d".toList, []⟩] ∧
      (tail.records.filter (·.token.isSome)).length =
        (enclosed 0 (ofText none "{$b}$a{$c}/0{x}$d".toList)).count (dollar, false) := by
  obtain ⟨tail, found, same⟩ : ∃ tail, Tail.parse "{$b}$a{$c}/0{x}$d".toList = .ok tail ∧
      tail.records = [⟨none, ["{$b}".toList]⟩,
        ⟨some "$a/0".toList, ["{$c}".toList, "{x}".toList]⟩, ⟨some "$d".toList, []⟩] :=
    ⟨_, rfl, rfl⟩
  exact ⟨tail, found, same, (parse_trace found).2.2.1⟩

end Tail
end MarcPath
