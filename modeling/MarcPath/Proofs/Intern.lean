import MarcPath.Path.Fold
import MarcPath.Proofs.View

/-! Storing plain values. Their nested paths are stored first, from the innermost outwards, so that each
value is stored with references that are viewed as its nested paths. -/
namespace MarcPath

open Store (Change)

variable {store : Store} {floor : Nat} {make : Path → Change PathId}

/-- The change stores the path, above a floor that the store has reached. -/
def StoresAs (floor : Nat) (make : Path → Change PathId) (path : Path) : Prop :=
  ∀ store, floor ≤ store.paths.size → (make path).Yields store fun id after =>
    after.viewFrom floor id = .ok path

theorem Operand.yields {operand : Operand Path} (below : floor ≤ store.paths.size)
    (stores : ∀ path ∈ operand.paths, StoresAs floor make path) :
    Change.Yields ((operand.map make).mapM id) store fun made after =>
      made.mapM (after.viewFrom floor) = .ok operand := by
  cases operand with
  | literal value => exact .pure rfl
  | path value source =>
    apply (stores value List.mem_cons_self store below).bind
    intro id after _ viewed
    refine .pure ?_
    rw [Operand.mapM, viewed]
    rfl

theorem Term.yields {term : Term Path} (below : floor ≤ store.paths.size)
    (stores : ∀ path ∈ term.paths, StoresAs floor make path) :
    Change.Yields ((term.map make).mapM id) store fun made after =>
      made.mapM (after.viewFrom floor) = .ok term := by
  cases term with
  | absent context => exact .pure rfl
  | given operand =>
    apply (Operand.yields below stores).bind
    intro made after _ viewed
    refine .pure ?_
    rw [Term.mapM, viewed]
    rfl

theorem Condition.yields {condition : Condition Path} (below : floor ≤ store.paths.size)
    (stores : ∀ path ∈ condition.paths, StoresAs floor make path) :
    Change.Yields ((condition.map make).mapM id) store fun made after =>
      made.mapM (after.viewFrom floor) = .ok condition := by
  apply (Term.yields below fun path member => stores path (List.mem_append_left _ member)).bind
  intro left afterLeft grows first
  apply (Operand.yields (grows.above below) fun path member =>
    stores path (List.mem_append_right _ member)).bind
  intro right after grows second
  refine .pure ?_
  rw [Condition.mapM, Term.mapM_of_imp (fun _ _ => grows.viewFrom) first, second]
  rfl

/-- Values that are stored one by one are all viewed in the end, if what is viewed stays as the store
grows. -/
theorem Store.Change.Yields.sequence {α β : Type} {items : List α} {make : α → Change β}
    (view : Store → β → Except Error α) (below : floor ≤ store.paths.size)
    (stays : ∀ before after made item, before.GrowsTo after → view before made = .ok item →
      view after made = .ok item)
    (yields : ∀ item ∈ items, ∀ after, floor ≤ after.paths.size →
      (make item).Yields after fun made last => view last made = .ok item) :
    (List.mapM make items).Yields store fun made after => List.mapM (view after) made = .ok items := by
  have keeps : ∀ item made before after, before.GrowsTo after → view before made = .ok item →
      view after made = .ok item := fun item made before after => stays before after made item
  have each : ∀ item ∈ items, ∀ after, store.GrowsTo after →
      (make item).Yields after fun made last => view last made = .ok item :=
    fun item member after grows => yields item member after (grows.above below)
  apply (Change.Yields.mapM keeps each).mono
  exact fun made after _ all => mapM_eq_ok_iff.mpr all.flip

theorem Group.yields {group : Group Path} (below : floor ≤ store.paths.size)
    (stores : ∀ path ∈ group.paths, StoresAs floor make path) :
    Change.Yields ((group.map make).mapM id) store fun made after =>
      made.mapM (after.viewFrom floor) = .ok group := by
  have others : ∀ condition ∈ group.others, ∀ path ∈ condition.paths, StoresAs floor make path :=
    fun condition known path member =>
      stores path (List.mem_append_right _ (List.mem_flatMap.mpr ⟨condition, known, member⟩))
  apply (Condition.yields below fun path member => stores path (List.mem_append_left _ member)).bind
  intro first afterFirst grows viewed
  rw [Group.map, List.mapM_map]
  apply (Change.Yields.sequence (fun after => Condition.mapM (after.viewFrom floor))
    (grows.above below) (fun _ _ _ _ grows => Condition.mapM_of_imp fun _ _ => grows.viewFrom)
    fun condition known _ below => Condition.yields below (others condition known)).bind
  intro rest after grows reads
  refine .pure ?_
  rw [Group.mapM, Condition.mapM_of_imp (fun _ _ => grows.viewFrom) viewed, reads]
  rfl

private theorem groups_yields {groups : List (Group Path)} (below : floor ≤ store.paths.size)
    (stores : ∀ path ∈ groups.flatMap Group.paths, StoresAs floor make path) :
    Change.Yields (List.mapM (Group.mapM id) (groups.map (Group.map make))) store fun made after =>
      List.mapM (Group.mapM (after.viewFrom floor)) made = .ok groups := by
  rw [List.mapM_map]
  exact .sequence (fun after => Group.mapM (after.viewFrom floor)) below
    (fun _ _ _ _ grows => Group.mapM_of_imp fun _ _ => grows.viewFrom)
    fun group known _ below => Group.yields below fun path member =>
      stores path (List.mem_flatMap.mpr ⟨group, known, member⟩)

theorem Subfield.yields {subfield : Subfield Path} (below : floor ≤ store.paths.size)
    (stores : ∀ path ∈ subfield.paths, StoresAs floor make path) :
    Change.Yields ((subfield.map make).mapM id) store fun made after =>
      made.mapM (after.viewFrom floor) = .ok subfield := by
  apply (groups_yields below stores).bind
  intro groups after _ reads
  refine .pure ?_
  rw [Subfield.mapM, reads]
  rfl

theorem Layer.yields {layer : Layer Path} (below : floor ≤ store.paths.size)
    (stores : ∀ path ∈ layer.paths, StoresAs floor make path) :
    Change.Yields ((layer.map make).mapM id) store fun made after =>
      made.mapM (after.viewFrom floor) = .ok layer := by
  have inSubfields : ∀ subfield ∈ layer.subfields, ∀ path ∈ subfield.paths, StoresAs floor make path :=
    fun subfield known path member =>
      stores path (List.mem_append_right _ (List.mem_flatMap.mpr ⟨subfield, known, member⟩))
  have field : Change.Yields ((layer.field.map make).mapM id) store fun made after =>
      made.mapM (after.viewFrom floor) = .ok layer.field := by
    apply (groups_yields below fun path member => stores path (List.mem_append_left _ member)).bind
    intro groups after _ reads
    refine .pure ?_
    rw [Field.mapM, reads]
    rfl
  apply field.bind
  intro field afterField grows viewed
  rw [Layer.map, List.mapM_map]
  apply (Change.Yields.sequence (fun after => Subfield.mapM (after.viewFrom floor))
    (grows.above below) (fun _ _ _ _ grows => Subfield.mapM_of_imp fun _ _ => grows.viewFrom)
    fun subfield known _ below => Subfield.yields below (inSubfields subfield known)).bind
  intro subfields after grows reads
  refine .pure ?_
  rw [Layer.mapM, Field.mapM_of_imp (fun _ _ => grows.viewFrom) viewed, reads]
  rfl

namespace Store

/-- A path is stored above any floor that the store has reached, with all that is nested in it. -/
theorem storesAs_intern (floor : Nat) (path : Path) : StoresAs floor intern path := by
  refine Path.induct ?_ path
  intro layer nested store below
  rw [intern, Path.fold_mk]
  apply (Layer.yields below nested).bind
  exact fun made after grows viewed => addLayer_yields (grows.above below) viewed

/-- A path that is stored is viewed as itself. -/
theorem view_intern (path : Path) (store : Store) :
    (intern path store).2.view (intern path store).1 = .ok path :=
  view_of_viewFrom (storesAs_intern 0 path store (Nat.zero_le _)).2

theorem internGroup_yields (below : floor ≤ store.paths.size) (group : Group Path) :
    (internGroup group).Yields store fun made after =>
      made.mapM (after.viewFrom floor) = .ok group :=
  Group.yields below fun path _ => storesAs_intern floor path

end Store
end MarcPath
