import Mathlib.Data.List.Destutter
import MarcPath.Proofs.Place

/-! What a term set is cut into, told by its places. The operator characters that run up to the last one
of them are one operator if they spell it once repeats are folded; otherwise the last one stands alone,
and those before it are left to the left term. -/
namespace MarcPath

theorem Operator.ofText?_eq_none_iff {text : Text} :
    ofText? text = none ↔ ∀ operator : Operator, operator.symbol ≠ text := by
  simp only [Option.eq_none_iff_forall_ne_some, ne_eq, ofText?_eq_some_iff]

namespace TermSet

/-- Folding keeps a character if it differs from the one before it. -/
theorem fold_eq_destutter (text : Text) : fold text = text.destutter (· ≠ ·) := by
  fun_induction fold text with
  | case1 => rfl
  | case2 c => rfl
  | case3 c next rest same ih =>
    obtain rfl := beq_iff_eq.mp same
    rw [ih, List.destutter_cons_cons, if_neg (by simp)]
    rfl
  | case4 c next rest other ih =>
    rw [ih, List.destutter_cons_cons, if_pos (by simpa using other)]
    rfl

/-- The operator characters that run up to the last one of a text, and what stands before and behind
them. -/
structure LastRun (text front run right : Text) : Prop where
  parts : text = front ++ run ++ right
  nonempty : run ≠ []
  operates : ∀ place, front.length ≤ place → place < front.length + run.length → OperatesAt text place
  last : ∀ place, front.length + run.length ≤ place → ¬ OperatesAt text place
  longest : ∀ place, place + 1 = front.length → ¬ OperatesAt text place

variable {text : Text} {front run right : List Cell}

theorem operatesAt_of_cells (whole : cells none text = front ++ run ++ right) (place : Nat) :
    OperatesAt text place ↔
      ∃ cell, (front ++ run ++ right)[place]? = some cell ∧ isOperator cell = true := by
  rw [operatesAt_iff, whole]

theorem Runs.lastRun (runs : Runs text front run right) (nonempty : run ≠ []) :
    LastRun text (front.map Prod.fst) (run.map Prod.fst) (right.map Prod.fst) where
  parts := by rw [← List.map_append, ← List.map_append, ← runs.whole, map_fst_cells]
  nonempty := by simpa using nonempty
  operates := by
    intro place begun inside
    rw [List.length_map] at begun
    rw [List.length_map, List.length_map] at inside
    have within : place - front.length < run.length := by omega
    refine (operatesAt_of_cells runs.whole place).mpr
      ⟨run[place - front.length], ?_, runs.operates _ (List.getElem_mem within)⟩
    rw [List.append_assoc, List.getElem?_append_right begun, List.getElem?_append_left within,
      List.getElem?_eq_getElem within]
  last := by
    intro place behind operates
    rw [List.length_map, List.length_map, ← List.length_append] at behind
    obtain ⟨cell, found, known⟩ := (operatesAt_of_cells runs.whole place).mp operates
    rw [List.getElem?_append_right behind] at found
    simp [runs.last cell (List.mem_of_getElem? found)] at known
  longest := by
    intro place ends operates
    rw [List.length_map] at ends
    obtain ⟨cell, found, known⟩ := (operatesAt_of_cells runs.whole place).mp operates
    rw [List.append_assoc, List.getElem?_append_left (by omega)] at found
    have last : front.getLast? = some cell := by
      rw [List.getLast?_eq_getElem?, ← ends, Nat.add_sub_cancel, found]
    simp [runs.longest cell last] at known

theorem LastRun.runs (whole : cells none text = front ++ run ++ right)
    (known : LastRun text (front.map Prod.fst) (run.map Prod.fst) (right.map Prod.fst)) :
    Runs text front run right where
  whole := whole
  operates := by
    intro cell member
    obtain ⟨place, found⟩ := List.mem_iff_getElem?.mp member
    have inside : place < run.length := (List.getElem?_eq_some_iff.mp found).1
    obtain ⟨other, here, operates⟩ := (operatesAt_of_cells whole (front.length + place)).mp
      (known.operates _ (by simp) (by simpa using inside))
    rw [List.append_assoc, List.getElem?_append_right (by omega), Nat.add_sub_cancel_left,
      List.getElem?_append_left inside, found] at here
    exact Option.some.inj here ▸ operates
  last := by
    intro cell member
    obtain ⟨place, found⟩ := List.mem_iff_getElem?.mp member
    by_contra operates
    rw [Bool.not_eq_false] at operates
    refine known.last ((front ++ run).length + place) (by simp)
      ((operatesAt_of_cells whole _).mpr ⟨cell, ?_, operates⟩)
    rw [List.getElem?_append_right (by omega), Nat.add_sub_cancel_left, found]
  longest := by
    intro cell member
    obtain ⟨earlier, rfl⟩ := List.getLast?_eq_some_iff.mp member
    by_contra operates
    rw [Bool.not_eq_false] at operates
    exact known.longest earlier.length (by simp)
      ((operatesAt_of_cells whole _).mpr ⟨cell, by simp, operates⟩)

/-- The cells of a text have parts wherever the text has, so a run of places is one of cells. -/
theorem LastRun.exists_runs {front earlier right : Text} {c : Char}
    (found : LastRun text front (earlier ++ [c]) right) :
    ∃ before spelled last behind, Runs text before (spelled ++ [last]) behind ∧
      before.map Prod.fst = front ∧ spelled.map Prod.fst = earlier ∧ last.1 = c ∧
      behind.map Prod.fst = right := by
  have whole : (cells none text).map Prod.fst = front ++ (earlier ++ [c]) ++ right := by
    rw [map_fst_cells, ← found.parts]
  obtain ⟨upToLast, behind, halves, upToMap, rfl⟩ := List.map_eq_append_iff.mp whole
  obtain ⟨before, run, rfl, rfl, runMap⟩ := List.map_eq_append_iff.mp upToMap
  obtain ⟨spelled, ending, rfl, rfl, endMap⟩ := List.map_eq_append_iff.mp runMap
  obtain ⟨last, rfl, rfl⟩ := List.map_eq_singleton_iff.mp endMap
  exact ⟨before, spelled, last, behind, LastRun.runs halves (by simpa using found), rfl, rfl, rfl, rfl⟩

/-- How a term set is cut: not at all without an operator; at the last run, if that spells an operator
without its repeats; otherwise at the last character of that run. -/
inductive Cut (text : Text) : TermSet → Prop
  | whole (plain : ∀ place, ¬ OperatesAt text place) : Cut text ⟨[], none, text⟩
  | run {front run right : Text} {operator : Operator} (found : LastRun text front run right)
      (spells : operator.symbol = run.destutter (· ≠ ·)) : Cut text ⟨front, some operator, right⟩
  | single {front earlier right : Text} {c : Char} {operator : Operator}
      (found : LastRun text front (earlier ++ [c]) right)
      (unknown : ∀ other : Operator, other.symbol ≠ (earlier ++ [c]).destutter (· ≠ ·))
      (spells : operator.symbol = [c]) : Cut text ⟨front ++ earlier, some operator, right⟩

theorem cut_parse (text : Text) : Cut text (parse text) := by
  rcases exists_runs text with plain | ⟨front, earlier, last, right, runs⟩
  · rw [parse_of_not_operator plain]
    exact .whole (forall_not_operatesAt_iff.mpr plain)
  · have found := runs.lastRun (by simp)
    rw [runs.parse_eq, fold_eq_destutter]
    cases known : Operator.ofText? (((earlier ++ [last]).map Prod.fst).destutter (· ≠ ·)) with
    | some operator => exact .run found (Operator.ofText?_eq_some_iff.mp known)
    | none =>
      -- Every operator character spells an operator of its own, so the last one can stand alone.
      have member : last ∈ cells none text := by simp [runs.whole]
      have operates := runs.operates last (by simp)
      obtain ⟨operator, spelled⟩ := Option.isSome_iff_exists.mp operates
      have symbol : operator.symbol = [last.1] :=
        Operator.ofText?_eq_some_iff.mp ((ofChar?_of_mem_cells member operates).trans spelled)
      rw [List.map_append, List.map_singleton] at found known
      simp only [List.map_append, spelled]
      exact .single found (Operator.ofText?_eq_none_iff.mp known) symbol

theorem Cut.parse_eq {set : TermSet} (cut : Cut text set) : parse text = set := by
  cases cut with
  | whole plain => exact parse_of_not_operator (forall_not_operatesAt_iff.mp plain)
  | @run front run right operator found spells =>
    obtain rfl | ⟨earlier, c, rfl⟩ := List.eq_nil_or_concat' run
    · exact absurd rfl found.nonempty
    · obtain ⟨before, spelled, last, behind, runs, rfl, rfl, rfl, rfl⟩ := found.exists_runs
      have known := Operator.ofText?_eq_some_iff.mpr spells
      rw [runs.parse_eq, fold_eq_destutter, List.map_append, List.map_singleton, known]
  | single found unknown spells =>
    obtain ⟨before, spelled, last, behind, runs, rfl, rfl, rfl, rfl⟩ := found.exists_runs
    have member : last ∈ cells none text := by simp [runs.whole]
    have known := ofChar?_of_mem_cells member (runs.operates last (by simp))
    rw [runs.parse_eq, fold_eq_destutter, List.map_append, List.map_singleton,
      Operator.ofText?_eq_none_iff.mpr unknown, List.map_append, ← known]
    simp only [Operator.ofChar?, Operator.ofText?_eq_some_iff.mpr spells]

/-- A term set is left whole if no character of it stands for an operator, and otherwise it is cut at
the operator characters that run up to the last one of it, or at that one alone. -/
theorem parse_eq_iff_cut (text : Text) :
    (parse text = ⟨[], none, text⟩ ↔ ∀ place, ¬ OperatesAt text place) ∧
      ∀ set, parse text = set ↔ Cut text set := by
  have cuts (set : TermSet) : parse text = set ↔ Cut text set :=
    ⟨fun same => same ▸ cut_parse text, Cut.parse_eq⟩
  refine ⟨?_, cuts⟩
  rw [cuts]
  constructor
  · intro cut
    generalize same : TermSet.mk [] none text = set at cut
    cases cut with
    | whole plain => exact plain
    | run => nomatch congrArg TermSet.operator same
    | single => nomatch congrArg TermSet.operator same
  · exact .whole

end TermSet
end MarcPath
