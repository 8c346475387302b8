import MarcPath.Proofs.Store

/-! Stored paths as plain values. What can be viewed can still be viewed once the store has grown, and
what is stored as a path is viewed as that path. -/
namespace MarcPath

section

variable {ρ σ : Type} {f g : ρ → Except Error σ}

/-! A traversal that succeeds has succeeded at every nested path, and another one that gives the same
there succeeds as well. -/

theorem Operand.mapM_of_imp {operand : Operand ρ} {result : Operand σ}
    (imp : ∀ path value, f path = .ok value → g path = .ok value)
    (found : operand.mapM f = .ok result) : operand.mapM g = .ok result := by
  cases operand with
  | literal value => exact found
  | path value source =>
    obtain ⟨inner, read, same⟩ := bind_eq_ok_iff.mp found
    rw [Operand.mapM, imp value inner read]
    exact same

theorem Term.mapM_of_imp {term : Term ρ} {result : Term σ}
    (imp : ∀ path value, f path = .ok value → g path = .ok value)
    (found : term.mapM f = .ok result) : term.mapM g = .ok result := by
  cases term with
  | absent context => exact found
  | given operand =>
    obtain ⟨inner, read, same⟩ := bind_eq_ok_iff.mp found
    rw [Term.mapM, Operand.mapM_of_imp imp read]
    exact same

theorem Condition.mapM_of_imp {condition : Condition ρ} {result : Condition σ}
    (imp : ∀ path value, f path = .ok value → g path = .ok value)
    (found : condition.mapM f = .ok result) : condition.mapM g = .ok result := by
  obtain ⟨left, first, found⟩ := bind_eq_ok_iff.mp found
  obtain ⟨right, second, same⟩ := bind_eq_ok_iff.mp found
  rw [Condition.mapM, Term.mapM_of_imp imp first, Operand.mapM_of_imp imp second]
  exact same

theorem Group.mapM_of_imp {group : Group ρ} {result : Group σ}
    (imp : ∀ path value, f path = .ok value → g path = .ok value)
    (found : group.mapM f = .ok result) : group.mapM g = .ok result := by
  obtain ⟨first, read, found⟩ := bind_eq_ok_iff.mp found
  obtain ⟨others, reads, same⟩ := bind_eq_ok_iff.mp found
  rw [Group.mapM, Condition.mapM_of_imp imp read,
    MarcPath.mapM_of_imp (fun _ _ => Condition.mapM_of_imp imp) reads]
  exact same

theorem Field.mapM_of_imp {field : Field ρ} {result : Field σ}
    (imp : ∀ path value, f path = .ok value → g path = .ok value)
    (found : field.mapM f = .ok result) : field.mapM g = .ok result := by
  obtain ⟨groups, reads, same⟩ := bind_eq_ok_iff.mp found
  rw [Field.mapM, MarcPath.mapM_of_imp (fun _ _ => Group.mapM_of_imp imp) reads]
  exact same

theorem Subfield.mapM_of_imp {subfield : Subfield ρ} {result : Subfield σ}
    (imp : ∀ path value, f path = .ok value → g path = .ok value)
    (found : subfield.mapM f = .ok result) : subfield.mapM g = .ok result := by
  obtain ⟨groups, reads, same⟩ := bind_eq_ok_iff.mp found
  rw [Subfield.mapM, MarcPath.mapM_of_imp (fun _ _ => Group.mapM_of_imp imp) reads]
  exact same

theorem Layer.mapM_of_imp {layer : Layer ρ} {result : Layer σ}
    (imp : ∀ path value, f path = .ok value → g path = .ok value)
    (found : layer.mapM f = .ok result) : layer.mapM g = .ok result := by
  obtain ⟨field, read, found⟩ := bind_eq_ok_iff.mp found
  obtain ⟨subfields, reads, same⟩ := bind_eq_ok_iff.mp found
  rw [Layer.mapM, Field.mapM_of_imp imp read,
    MarcPath.mapM_of_imp (fun _ _ => Subfield.mapM_of_imp imp) reads]
  exact same

theorem Operand.exists_of_mapM {operand : Operand ρ} {result : Operand σ}
    (found : operand.mapM f = .ok result) : ∀ path ∈ operand.paths, ∃ value, f path = .ok value := by
  cases operand with
  | literal value => simp [Operand.paths]
  | path value source =>
    obtain ⟨inner, read, -⟩ := bind_eq_ok_iff.mp found
    intro path member
    obtain rfl := List.mem_singleton.mp member
    exact ⟨inner, read⟩

theorem Condition.exists_of_mapM {condition : Condition ρ} {result : Condition σ}
    (found : condition.mapM f = .ok result) : ∀ path ∈ condition.paths, ∃ value, f path = .ok value := by
  obtain ⟨left, first, found⟩ := bind_eq_ok_iff.mp found
  obtain ⟨right, second, -⟩ := bind_eq_ok_iff.mp found
  intro path member
  rcases List.mem_append.mp member with member | member
  · cases given : condition.left with
    | absent context => simp [given, Term.paths] at member
    | given operand =>
      rw [given] at first member
      obtain ⟨inner, read, -⟩ := bind_eq_ok_iff.mp first
      exact Operand.exists_of_mapM read path member
  · exact Operand.exists_of_mapM second path member

theorem Group.exists_of_mapM {group : Group ρ} {result : Group σ}
    (found : group.mapM f = .ok result) : ∀ path ∈ group.paths, ∃ value, f path = .ok value := by
  obtain ⟨first, read, found⟩ := bind_eq_ok_iff.mp found
  obtain ⟨others, reads, -⟩ := bind_eq_ok_iff.mp found
  intro path member
  rcases List.mem_append.mp member with member | member
  · exact Condition.exists_of_mapM read path member
  · obtain ⟨condition, known, member⟩ := List.mem_flatMap.mp member
    obtain ⟨_, -, read⟩ := exists_of_mem_items reads known
    exact Condition.exists_of_mapM read path member

theorem exists_of_mapM_groups {groups : List (Group ρ)} {results : List (Group σ)}
    (found : List.mapM (Group.mapM f) groups = .ok results) :
    ∀ path ∈ groups.flatMap Group.paths, ∃ value, f path = .ok value := by
  intro path member
  obtain ⟨group, known, member⟩ := List.mem_flatMap.mp member
  obtain ⟨_, -, read⟩ := exists_of_mem_items found known
  exact Group.exists_of_mapM read path member

end

namespace Store

variable {store before after : Store} {id : PathId} {path : Path}

theorem layer_eq_ok_iff {layer : Layer PathId} : store.layer id = .ok layer ↔
    ∃ record, store.path id = .ok record ∧ store.field record.field = .ok layer.field ∧
      List.mapM store.subfield record.subfields = .ok layer.subfields ∧
      layer.nesting = record.nesting := by
  simp only [Store.layer, bind_eq_ok_iff]
  constructor
  · rintro ⟨record, read, field, held, subfields, listed, same⟩
    obtain rfl := Except.ok.inj same
    exact ⟨record, read, held, listed, rfl⟩
  · rintro ⟨record, read, held, listed, same⟩
    exact ⟨record, read, _, held, _, listed, by rw [← same]; rfl⟩

/-- A path stays as it is with its own field and subfields. -/
theorem layer_of_kept {layer : Layer PathId}
    (path : ∀ record, before.path id = .ok record → after.path id = .ok record)
    (field : ∀ id field, before.field id = .ok field → after.field id = .ok field)
    (subfield : ∀ id subfield, before.subfield id = .ok subfield → after.subfield id = .ok subfield)
    (found : before.layer id = .ok layer) : after.layer id = .ok layer := by
  obtain ⟨record, read, held, listed, same⟩ := layer_eq_ok_iff.mp found
  exact layer_eq_ok_iff.mpr ⟨record, path record read, field _ _ held,
    MarcPath.mapM_of_imp subfield listed, same⟩

/-- Its own field and subfields are there for every path of a closed store. -/
theorem Closed.exists_layer (closed : store.Closed) (known : store.Has (.path id)) :
    ∃ layer, store.layer id = .ok layer := by
  obtain ⟨record, read⟩ := known
  obtain ⟨⟨field, held⟩, listed⟩ := closed.path id record read
  have found : ∃ subfields, List.mapM store.subfield record.subfields = .ok subfields := by
    generalize record.subfields = ids at listed
    induction ids with
    | nil => exact ⟨[], rfl⟩
    | cons first rest ih =>
      obtain ⟨subfield, one⟩ := listed first List.mem_cons_self
      obtain ⟨others, all⟩ := ih fun other member => listed other (List.mem_cons_of_mem _ member)
      exact ⟨subfield :: others, mapM_eq_ok_iff.mpr (.cons one (mapM_eq_ok_iff.mp all))⟩
  obtain ⟨subfields, reads⟩ := found
  exact ⟨⟨field, subfields, record.nesting⟩, layer_eq_ok_iff.mpr ⟨record, read, held, reads, rfl⟩⟩

/-- Follows references to nested paths for so many levels, but to none that is numbered below a floor. -/
def viewAbove (store : Store) (floor : Nat) : (levels : Nat) → PathId → Except Error Path
  | 0, _ => .error .circular
  | levels + 1, id => do
    if id.number < floor then .error .outOfRange
    else
      let layer ← store.layer id
      return .mk (← layer.mapM (viewAbove store floor levels))

theorem viewAbove_succ_eq_ok_iff {floor levels : Nat} :
    store.viewAbove floor (levels + 1) id = .ok path ↔ floor ≤ id.number ∧
      ∃ layer, store.layer id = .ok layer ∧
        layer.mapM (store.viewAbove floor levels) = .ok path.layer := by
  unfold viewAbove
  by_cases low : id.number < floor
  · rw [if_pos low]
    constructor
    · intro found
      cases found
    · rintro ⟨high, -⟩
      omega
  · rw [if_neg low]
    simp only [bind_eq_ok_iff]
    constructor
    · rintro ⟨layer, found, inner, viewed, same⟩
      obtain rfl := Except.ok.inj same
      exact ⟨by omega, layer, found, viewed⟩
    · rintro ⟨-, layer, found, viewed⟩
      obtain ⟨inner⟩ := path
      exact ⟨layer, found, inner, viewed, rfl⟩

/-- Without a floor this is the view of a path. -/
theorem viewAbove_zero (store : Store) (levels : Nat) :
    store.viewAbove 0 levels = store.viewWithin levels := by
  induction levels with
  | zero => rfl
  | succ levels ih =>
    funext id
    rw [viewAbove, if_neg (by omega), ih]
    rfl

/-- What is viewed above a floor hangs on no path below it. -/
theorem viewAbove_of_kept {floor lower levels more : Nat}
    (path' : ∀ id record, floor ≤ id.number → before.path id = .ok record → after.path id = .ok record)
    (field : ∀ id field, before.field id = .ok field → after.field id = .ok field)
    (subfield : ∀ id subfield, before.subfield id = .ok subfield → after.subfield id = .ok subfield)
    (below : lower ≤ floor) (le : levels ≤ more) (found : before.viewAbove floor levels id = .ok path) :
    after.viewAbove lower more id = .ok path := by
  induction levels generalizing more id path with
  | zero => cases found
  | succ levels ih =>
    obtain ⟨more, rfl⟩ : ∃ fewer, more = fewer + 1 := ⟨more - 1, by omega⟩
    obtain ⟨high, layer, read, viewed⟩ := viewAbove_succ_eq_ok_iff.mp found
    refine viewAbove_succ_eq_ok_iff.mpr ⟨by omega, layer, ?_, ?_⟩
    · exact layer_of_kept (fun record => path' id record high) field subfield read
    · exact Layer.mapM_of_imp (fun _ _ => ih (by omega)) viewed

/-- With a lower floor and more levels there is the same to view. -/
theorem viewAbove_mono {floor lower levels more : Nat} (below : lower ≤ floor) (le : levels ≤ more)
    (found : store.viewAbove floor levels id = .ok path) : store.viewAbove lower more id = .ok path :=
  viewAbove_of_kept (fun _ _ _ known => known) (fun _ _ known => known) (fun _ _ known => known) below le
    found

/-- A path, viewed without going below a floor. There are no more levels than paths above it. -/
def viewFrom (store : Store) (floor : Nat) (id : PathId) : Except Error Path :=
  store.viewAbove floor (store.paths.size - floor) id

theorem view_of_viewFrom {floor : Nat} (found : store.viewFrom floor id = .ok path) :
    store.view id = .ok path := by
  rw [view, ← viewAbove_zero]
  exact viewAbove_mono (Nat.zero_le floor) (Nat.sub_le _ _) found

namespace GrowsTo

theorem size_le (grows : before.GrowsTo after) : before.paths.size ≤ after.paths.size := by
  by_contra fewer
  have inside : after.paths.size < before.paths.size := by omega
  have known : before.path ⟨after.paths.size⟩ = .ok before.paths[after.paths.size] :=
    path_eq_ok_iff.mpr (Array.getElem?_eq_getElem inside)
  have kept := path_eq_ok_iff.mp (grows.path _ _ known)
  simp at kept

theorem above (grows : before.GrowsTo after) {floor : Nat} (below : floor ≤ before.paths.size) :
    floor ≤ after.paths.size :=
  Nat.le_trans below grows.size_le

/-- What could be viewed is viewed as before. -/
theorem viewFrom (grows : before.GrowsTo after) {floor : Nat}
    (found : before.viewFrom floor id = .ok path) : after.viewFrom floor id = .ok path :=
  viewAbove_of_kept (fun id record _ => grows.path id record) grows.field grows.subfield (Nat.le_refl _)
    (Nat.sub_le_sub_right grows.size_le floor) found

end GrowsTo

theorem has_of_viewFrom {floor : Nat} (found : store.viewFrom floor id = .ok path) :
    store.Has (.path id) := by
  unfold viewFrom at found
  cases levels : store.paths.size - floor with
  | zero =>
    rw [levels] at found
    cases found
  | succ levels' =>
    rw [levels] at found
    obtain ⟨-, layer, read, -⟩ := viewAbove_succ_eq_ok_iff.mp found
    obtain ⟨record, read, -⟩ := layer_eq_ok_iff.mp read
    exact ⟨record, read⟩

/-- Subfields are stored in their order. -/
theorem mapM_addSubfield_yields {subfields : List (Subfield PathId)}
    (inside : ∀ subfield ∈ subfields, ∀ inner ∈ subfield.paths, store.Has (.path inner)) :
    (List.mapM addSubfield subfields).Yields store fun ids after =>
      List.mapM after.subfield ids = .ok subfields := by
  have each : ∀ subfield ∈ subfields, ∀ after, store.GrowsTo after →
      (addSubfield subfield).Yields after fun id last => last.subfield id = .ok subfield := by
    intro subfield member after grows
    apply (addSubfield_yields fun inner known => grows.has (inside subfield member inner known)).mono
    exact fun _ _ _ made => made.1
  have stays : ∀ (subfield : Subfield PathId) (id : SubfieldId) (before after : Store),
      before.GrowsTo after → before.subfield id = .ok subfield → after.subfield id = .ok subfield :=
    fun subfield id _ _ grows => grows.subfield id subfield
  apply (Change.Yields.mapM stays each).mono
  exact fun ids after _ made => mapM_eq_ok_iff.mpr made.flip

/-- A path whose nested paths can be viewed is stored under a reference that is viewed as that path. -/
theorem addLayer_yields {floor : Nat} {layer : Layer PathId} {value : Layer Path}
    (below : floor ≤ store.paths.size) (known : layer.mapM (store.viewFrom floor) = .ok value) :
    (addLayer layer).Yields store fun id after => after.viewFrom floor id = .ok (.mk value) := by
  obtain ⟨field, first, rest⟩ := bind_eq_ok_iff.mp known
  obtain ⟨subfields, others, -⟩ := bind_eq_ok_iff.mp rest
  obtain ⟨groups, attached, -⟩ := bind_eq_ok_iff.mp first
  have inField : ∀ inner ∈ layer.field.paths, store.Has (.path inner) :=
    fun inner member => (exists_of_mapM_groups attached inner member).elim fun _ => has_of_viewFrom
  have inSubfields : ∀ subfield ∈ layer.subfields, ∀ inner ∈ subfield.paths,
      store.Has (.path inner) := by
    intro subfield member inner inside
    obtain ⟨_, -, read⟩ := exists_of_mem_items others member
    obtain ⟨groups, attached, -⟩ := bind_eq_ok_iff.mp read
    exact (exists_of_mapM_groups attached inner inside).elim fun _ => has_of_viewFrom
  apply (addField_yields inField).bind
  intro held afterField grows ⟨heldField, _⟩
  apply (mapM_addSubfield_yields fun subfield member inner inside =>
    grows.has (inSubfields subfield member inner inside)).bind
  intro listed afterSubfields more reads
  have heldField := more.field _ _ heldField
  have hasListed : ∀ subfield ∈ listed, afterSubfields.Has (.subfield subfield) := by
    intro subfield member
    obtain ⟨value, -, read⟩ := exists_of_mem_items reads member
    exact ⟨value, read⟩
  have fewer : store.paths.size ≤ afterSubfields.paths.size := (grows.trans more).size_le
  have added : (addPath ⟨held, listed, layer.nesting⟩).Yields afterSubfields _ :=
    addPath_yields ⟨_, heldField⟩ hasListed
  apply added.mono
  intro id last most ⟨read, number, size⟩
  have same : last.layer id = .ok layer := layer_eq_ok_iff.mpr ⟨_, read, most.field _ _ heldField,
    MarcPath.mapM_of_imp most.subfield reads, rfl⟩
  have all := (grows.trans more).trans most
  -- One more path is there now, and it is viewed with one more level than those nested in it.
  have levels : last.paths.size - floor = afterSubfields.paths.size - floor + 1 := by omega
  rw [viewFrom, levels]
  refine viewAbove_succ_eq_ok_iff.mpr ⟨by omega, layer, same, ?_⟩
  refine Layer.mapM_of_imp (fun inner value => ?_) known
  exact viewAbove_of_kept (fun id record _ => all.path id record) all.field all.subfield
    (Nat.le_refl _) (Nat.sub_le_sub_right fewer floor)

end Store
end MarcPath
