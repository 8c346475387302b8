import Mathlib.Data.List.Forall2
import MarcPath.Error

/-! What a reading comes to: a predicate for its result beside one for its error, with a rule for each
way in which readings are put together. Two readings that differ in their limits alone are compared
in the same way. -/
namespace MarcPath

variable {α β γ δ ε : Type}

theorem bind_eq_ok_iff {reading : Except ε α} {next : α → Except ε β} {result : β} :
    reading >>= next = .ok result ↔ ∃ first, reading = .ok first ∧ next first = .ok result := by
  cases reading <;> simp [bind, Except.bind]

theorem map_eq_ok_iff {reading : Except ε α} {f : α → β} {result : β} :
    reading.map f = .ok result ↔ ∃ first, reading = .ok first ∧ f first = result := by
  cases reading <;> simp [Except.map]

theorem exists_map_ok_iff {reading : Except ε α} {f : α → β} :
    (∃ result, reading.map f = .ok result) ↔ ∃ result, reading = .ok result := by
  simp [map_eq_ok_iff]

/-- A reading in two parts succeeds if each part does, where the second hangs on a condition alone. -/
theorem exists_bind_ok_iff {reading : Except ε α} {next : α → Except ε β} {condition : Prop}
    (second : ∀ first, (∃ result, next first = .ok result) ↔ condition) :
    (∃ result, reading >>= next = .ok result) ↔ (∃ first, reading = .ok first) ∧ condition := by
  simp only [bind_eq_ok_iff]
  constructor
  · rintro ⟨result, first, known, found⟩
    exact ⟨⟨first, known⟩, (second first).mp ⟨result, found⟩⟩
  · rintro ⟨⟨first, known⟩, holds⟩
    obtain ⟨result, found⟩ := (second first).mpr holds
    exact ⟨result, first, known, found⟩

theorem exists_optional_ok_iff {read : α → Except ε β} {given : Option α} :
    (∃ result, given.mapM read = .ok result) ↔ ∀ item ∈ given, ∃ result, read item = .ok result := by
  cases given with
  | none => exact iff_of_true ⟨none, rfl⟩ (by simp)
  | some item =>
    change (∃ result, (read item).map some = .ok result) ↔ _
    rw [exists_map_ok_iff]
    simp

theorem mapM_eq_ok_iff {read : α → Except Error β} {items : List α} {results : List β} :
    List.mapM read items = .ok results ↔
      List.Forall₂ (fun item result => read item = .ok result) items results := by
  induction items generalizing results with
  | nil => simp [pure, Except.pure, eq_comm]
  | cons item rest ih =>
    simp only [List.mapM_cons, bind_eq_ok_iff, ih, List.forall₂_cons_left_iff]
    constructor
    · rintro ⟨first, read, others, reads, same⟩
      exact ⟨first, others, read, reads, (Except.ok.inj same).symm⟩
    · rintro ⟨first, others, read, reads, same⟩
      exact ⟨first, read, others, reads, congrArg Except.ok same.symm⟩

theorem mapM_of_imp {read again : α → Except Error β} {items : List α} {results : List β}
    (imp : ∀ item result, read item = .ok result → again item = .ok result)
    (found : List.mapM read items = .ok results) : List.mapM again items = .ok results :=
  mapM_eq_ok_iff.mpr ((mapM_eq_ok_iff.mp found).imp imp)

theorem mapM_append_of_ok {read : α → Except Error β} {items more : List α} {results others : List β}
    (first : List.mapM read items = .ok results) (second : List.mapM read more = .ok others) :
    List.mapM read (items ++ more) = .ok (results ++ others) :=
  mapM_eq_ok_iff.mpr (List.rel_append (mapM_eq_ok_iff.mp first) (mapM_eq_ok_iff.mp second))

/-- A reading of several items ends with the first of them that fails. -/
theorem mapM_append_of_error {read : α → Except Error β} {items more : List α} {item : α} {error : Error}
    (first : ∀ item ∈ items, ∃ result, read item = .ok result) (failed : read item = .error error) :
    List.mapM read (items ++ item :: more) = .error error := by
  induction items with
  | nil =>
    rw [List.nil_append, List.mapM_cons, failed]
    rfl
  | cons next rest ih =>
    obtain ⟨result, found⟩ := first next (by simp)
    rw [List.cons_append, List.mapM_cons, found, ih fun item member => first item (by simp [member])]
    rfl

private theorem exists_of_forall₂ {relation : α → β → Prop} {items : List α} {results : List β}
    (related : List.Forall₂ relation items results) {item : α} (member : item ∈ items) :
    ∃ result ∈ results, relation item result := by
  induction related with
  | nil => cases member
  | @cons first result rest others known related ih =>
    rcases List.mem_cons.mp member with rfl | member
    · exact ⟨result, List.mem_cons_self, known⟩
    · obtain ⟨other, inside, known⟩ := ih member
      exact ⟨other, List.mem_cons_of_mem _ inside, known⟩

theorem exists_of_mem_items {read : α → Except Error β} {items : List α} {results : List β}
    (found : List.mapM read items = .ok results) {item : α} (member : item ∈ items) :
    ∃ result ∈ results, read item = .ok result :=
  exists_of_forall₂ (mapM_eq_ok_iff.mp found) member

theorem exists_of_mem_mapM {read : α → Except Error β} {items : List α} {results : List β}
    (found : List.mapM read items = .ok results) {result : β} (member : result ∈ results) :
    ∃ item ∈ items, read item = .ok result :=
  exists_of_forall₂ (mapM_eq_ok_iff.mp found).flip member

/-- A reading that can be undone item by item can be undone as a whole. -/
theorem map_of_mapM {read : α → Except Error β} {write : β → α} {items : List α} {results : List β}
    (undone : ∀ item ∈ items, ∀ result, read item = .ok result → write result = item)
    (found : List.mapM read items = .ok results) : results.map write = items := by
  have reads := mapM_eq_ok_iff.mp found
  induction reads with
  | nil => rfl
  | cons first rest ih =>
    rw [List.map_cons, undone _ List.mem_cons_self _ first]
    exact congrArg _ (ih (fun item member => undone item (List.mem_cons_of_mem _ member))
      (mapM_eq_ok_iff.mpr rest))

/-- `value` holds of the result of a reading that succeeds, `failure` of the error of one that fails. -/
def Outcome (value : α → Prop) (failure : Error → Prop) : Except Error α → Prop
  | .ok result => value result
  | .error error => failure error

namespace Outcome

variable {value : α → Prop} {other : β → Prop} {failure : Error → Prop}

theorem mono {weaker : α → Prop} {reading : Except Error α} (outcome : Outcome value failure reading)
    (implied : ∀ result, value result → weaker result) : Outcome weaker failure reading := by
  cases reading with
  | ok result => exact implied result outcome
  | error error => exact outcome

/-- A reading that cannot fail succeeds. -/
theorem exists_ok {reading : Except Error α} (outcome : Outcome value (fun _ => False) reading) :
    ∃ result, reading = .ok result ∧ value result := by
  cases reading with
  | ok result => exact ⟨result, rfl, outcome⟩
  | error error => exact outcome.elim

theorem imp {weaker : Error → Prop} {reading : Except Error α}
    (outcome : Outcome value failure reading) (implied : ∀ error, failure error → weaker error) :
    Outcome value weaker reading := by
  cases reading with
  | ok result => exact outcome
  | error error => exact implied error outcome

theorem bind {reading : Except Error α} {next : α → Except Error β}
    (outcome : Outcome value failure reading)
    (step : ∀ result, value result → Outcome other failure (next result)) :
    Outcome other failure (reading >>= next) := by
  cases reading with
  | ok result => exact step result outcome
  | error error => exact outcome

theorem map {reading : Except Error α} {f : α → β} (outcome : Outcome value failure reading)
    (kept : ∀ result, value result → other (f result)) : Outcome other failure (reading.map f) := by
  cases reading with
  | ok result => exact kept result outcome
  | error error => exact outcome

/-- What is known of a result because the reading succeeded may be used as well. -/
theorem with_ok {reading : Except Error α} (outcome : Outcome value failure reading) :
    Outcome (fun result => value result ∧ reading = .ok result) failure reading := by
  cases reading with
  | ok result => exact ⟨outcome, rfl⟩
  | error error => exact outcome

theorem mapM {read : α → Except Error β} {items : List α}
    (outcomes : ∀ item ∈ items, Outcome other failure (read item)) :
    Outcome (fun results => ∀ result ∈ results, other result) failure (List.mapM read items) := by
  induction items with
  | nil => simp [Outcome, pure, Except.pure]
  | cons item rest ih =>
    rw [List.mapM_cons]
    apply (outcomes item (by simp)).bind
    intro first known
    apply (ih fun item member => outcomes item (by simp [member])).bind
    intro others all result member
    rcases List.mem_cons.mp member with same | member
    · exact same ▸ known
    · exact all result member

end Outcome

/-- The second reading does what the first does, its result carried over by `f`; it may do anything
where the first fails with an excused error. -/
def Refines (excused : Error → Prop) (f : α → β) (first : Except Error α) (second : Except Error β) :
    Prop :=
  (∃ error, first = .error error ∧ excused error) ∨ second = first.map f

namespace Refines

variable {excused : Error → Prop} {f : α → β} {g : γ → δ}

theorem ok (result : α) : Refines excused f (.ok result) (.ok (f result)) :=
  .inr rfl

theorem error (error : Error) : Refines excused f (.error error) (.error error) :=
  .inr rfl

theorem refl (reading : Except Error α) : Refines excused id reading reading := by
  cases reading with
  | ok result => exact .ok result
  | error cause => exact .error cause

theorem bind {first : Except Error α} {second : Except Error β} {next : α → Except Error γ}
    {next' : β → Except Error δ} (refines : Refines excused f first second)
    (step : ∀ result, first = .ok result → Refines excused g (next result) (next' (f result))) :
    Refines excused g (first >>= next) (second >>= next') := by
  rcases refines with ⟨error, failed, known⟩ | same
  · exact .inl ⟨error, by rw [failed]; rfl, known⟩
  · subst same
    cases first with
    | error error => exact .error error
    | ok result => exact step result rfl

theorem map {first : Except Error α} {second : Except Error β} {p : α → γ} {q : β → δ}
    (refines : Refines excused f first second) (agree : ∀ result, q (f result) = g (p result)) :
    Refines excused g (first.map p) (second.map q) := by
  rcases refines with ⟨error, failed, known⟩ | same
  · exact .inl ⟨error, by rw [failed]; rfl, known⟩
  · subst same
    cases first with
    | error error => exact .error error
    | ok result => exact .inr (congrArg Except.ok (agree result))

theorem mapM {read : α → Except Error γ} {read' : α → Except Error δ} {items : List α}
    (refines : ∀ item ∈ items, Refines excused g (read item) (read' item)) :
    Refines excused (List.map g) (List.mapM read items) (List.mapM read' items) := by
  induction items with
  | nil => exact .inr rfl
  | cons item rest ih =>
    rw [List.mapM_cons, List.mapM_cons]
    have later := ih fun other member => refines other (by simp [member])
    exact (refines item (by simp)).bind fun first _ =>
      later.bind fun others _ => .ok (first :: others)

end Refines
end MarcPath
