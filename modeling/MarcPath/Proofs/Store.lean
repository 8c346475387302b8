import MarcPath.Path.Induction
import MarcPath.Proofs.Outcome
import MarcPath.Workspace.Basic

/-! Stores that grow. Most changes only put new objects into a store: those that are there stay as they
are, and nothing refers to an object that is not there. `Yields` says of a change that it is such a one,
together with what comes of it. -/
namespace MarcPath.Store

variable {α β : Type} {store before after later : Store}

/-- There is an object under this reference. -/
def Has (store : Store) : Handle → Prop
  | .path id => ∃ record, store.path id = .ok record
  | .field id => ∃ field, store.field id = .ok field
  | .subfield id => ∃ subfield, store.subfield id = .ok subfield

/-- Every reference in the store leads to an object. -/
structure Closed (store : Store) : Prop where
  path : ∀ id record, store.path id = .ok record →
    store.Has (.field record.field) ∧ ∀ subfield ∈ record.subfields, store.Has (.subfield subfield)
  field : ∀ id field, store.field id = .ok field → ∀ inner ∈ field.paths, store.Has (.path inner)
  subfield : ∀ id subfield, store.subfield id = .ok subfield →
    ∀ inner ∈ subfield.paths, store.Has (.path inner)

/-- Where no object is lost, only the references of those that are new or changed have to be followed. -/
theorem Closed.of_has (closed : before.Closed)
    (has : ∀ handle, before.Has handle → after.Has handle)
    (path : ∀ id record, after.path id = .ok record → before.path id = .ok record ∨
      (after.Has (.field record.field) ∧ ∀ subfield ∈ record.subfields, after.Has (.subfield subfield)))
    (field : ∀ id field, after.field id = .ok field → before.field id = .ok field ∨
      ∀ inner ∈ field.paths, after.Has (.path inner))
    (subfield : ∀ id subfield, after.subfield id = .ok subfield → before.subfield id = .ok subfield ∨
      ∀ inner ∈ subfield.paths, after.Has (.path inner)) : after.Closed := by
  constructor
  · intro id record found
    rcases path id record found with old | refers
    · obtain ⟨held, listed⟩ := closed.path id record old
      exact ⟨has _ held, fun subfield member => has _ (listed subfield member)⟩
    · exact refers
  · intro id value found
    rcases field id value found with old | refers
    · exact fun inner member => has _ (closed.field id value old inner member)
    · exact refers
  · intro id value found
    rcases subfield id value found with old | refers
    · exact fun inner member => has _ (closed.subfield id value old inner member)
    · exact refers

/-- The objects of one store are in the other as they are, and references still lead to objects. -/
structure GrowsTo (before after : Store) : Prop where
  path : ∀ id record, before.path id = .ok record → after.path id = .ok record
  field : ∀ id field, before.field id = .ok field → after.field id = .ok field
  subfield : ∀ id subfield, before.subfield id = .ok subfield → after.subfield id = .ok subfield
  closed : before.Closed → after.Closed

namespace GrowsTo

theorem refl (store : Store) : store.GrowsTo store :=
  ⟨fun _ _ => id, fun _ _ => id, fun _ _ => id, id⟩

theorem trans (first : before.GrowsTo after) (second : after.GrowsTo later) : before.GrowsTo later where
  path id record found := second.path id record (first.path id record found)
  field id field found := second.field id field (first.field id field found)
  subfield id subfield found := second.subfield id subfield (first.subfield id subfield found)
  closed known := second.closed (first.closed known)

theorem has (grows : before.GrowsTo after) {handle : Handle} (known : before.Has handle) :
    after.Has handle := by
  cases handle with
  | path id => exact known.imp (grows.path id)
  | field id => exact known.imp (grows.field id)
  | subfield id => exact known.imp (grows.subfield id)

/-- Where all objects are kept, only the references of the others have to be followed. -/
theorem of_kept (path : ∀ id record, before.path id = .ok record → after.path id = .ok record)
    (field : ∀ id field, before.field id = .ok field → after.field id = .ok field)
    (subfield : ∀ id subfield, before.subfield id = .ok subfield → after.subfield id = .ok subfield)
    (otherPath : ∀ id record, after.path id = .ok record → before.path id = .ok record ∨
      (after.Has (.field record.field) ∧ ∀ subfield ∈ record.subfields, after.Has (.subfield subfield)))
    (otherField : ∀ id field, after.field id = .ok field → before.field id = .ok field ∨
      ∀ inner ∈ field.paths, after.Has (.path inner))
    (otherSubfield : ∀ id subfield, after.subfield id = .ok subfield →
      before.subfield id = .ok subfield ∨ ∀ inner ∈ subfield.paths, after.Has (.path inner)) :
    before.GrowsTo after where
  path := path
  field := field
  subfield := subfield
  closed := by
    intro known
    refine known.of_has ?_ otherPath otherField otherSubfield
    intro handle known
    cases handle with
    | path id => exact known.imp (path id)
    | field id => exact known.imp (field id)
    | subfield id => exact known.imp (subfield id)

end GrowsTo

/-- A change lets the store grow, and this comes of it. -/
def Change.Yields (change : Change α) (store : Store) (result : α → Store → Prop) : Prop :=
  store.GrowsTo (change store).2 ∧ result (change store).1 (change store).2

namespace Change.Yields

variable {change : Change α} {next : α → Change β} {result weaker : α → Store → Prop}
  {other : β → Store → Prop}

theorem pure {value : α} (known : result value store) :
    Yields (Pure.pure value : Change α) store result :=
  ⟨.refl store, known⟩

theorem mono (yields : change.Yields store result)
    (implied : ∀ value after, store.GrowsTo after → result value after → weaker value after) :
    change.Yields store weaker :=
  ⟨yields.1, implied _ _ yields.1 yields.2⟩

theorem bind (yields : change.Yields store result)
    (step : ∀ value after, store.GrowsTo after → result value after → (next value).Yields after other) :
    (change >>= next).Yields store other := by
  obtain ⟨grows, known⟩ := step _ _ yields.1 yields.2
  exact ⟨yields.1.trans grows, known⟩

/-- What holds of each item as soon as it is made, and stays so, holds of all in the end. -/
theorem mapM {make : α → Change β} {each : α → β → Store → Prop} {items : List α}
    (stays : ∀ item value before after, before.GrowsTo after → each item value before →
      each item value after)
    (yields : ∀ item ∈ items, ∀ after, store.GrowsTo after → (make item).Yields after (each item)) :
    (List.mapM make items).Yields store fun values after =>
      List.Forall₂ (each · · after) items values := by
  induction items generalizing store with
  | nil => exact .pure .nil
  | cons item rest ih =>
    rw [List.mapM_cons]
    apply (yields item List.mem_cons_self store (.refl store)).bind
    intro value after grows made
    apply (ih fun other member later more => yields other (List.mem_cons_of_mem _ member) later
      (grows.trans more)).bind
    intro values last more others
    exact .pure (.cons (stays item value after last more made) others)

end Change.Yields

theorem path_eq_ok_iff {id : PathId} {record : PathRecord} :
    store.path id = .ok record ↔ store.paths[id.number]? = some record := by
  unfold path
  cases store.paths[id.number]? <;> simp

theorem field_eq_ok_iff {id : FieldId} {field : Field PathId} :
    store.field id = .ok field ↔ store.fields[id.number]? = some field := by
  unfold Store.field
  cases store.fields[id.number]? <;> simp

theorem subfield_eq_ok_iff {id : SubfieldId} {subfield : Subfield PathId} :
    store.subfield id = .ok subfield ↔ store.subfields[id.number]? = some subfield := by
  unfold Store.subfield
  cases store.subfields[id.number]? <;> simp

/-- A field is stored under a new reference. -/
theorem addField_yields {field : Field PathId} (inside : ∀ inner ∈ field.paths, store.Has (.path inner)) :
    (addField field).Yields store fun id after =>
      after.field id = .ok field ∧ ¬ store.Has (.field id) := by
  have grown (id : FieldId) (value : Field PathId) : (addField field store).2.field id = .ok value ↔
      store.field id = .ok value ∨ (id.number = store.fields.size ∧ value = field) := by
    rw [field_eq_ok_iff, field_eq_ok_iff]
    simp only [addField, Array.getElem?_push]
    grind
  refine ⟨.of_kept (fun _ _ => id) ?_ (fun _ _ => id) (fun _ _ => .inl) ?_ (fun _ _ => .inl), ?_, ?_⟩
  · exact fun id value found => (grown id value).mpr (.inl found)
  · intro other value found
    rcases (grown other value).mp found with old | ⟨-, rfl⟩
    · exact .inl old
    · exact .inr inside
  · exact (grown _ field).mpr (.inr ⟨rfl, rfl⟩)
  · rintro ⟨value, found⟩
    rw [field_eq_ok_iff] at found
    simp [addField] at found

/-- A subfield is stored under a new reference. -/
theorem addSubfield_yields {subfield : Subfield PathId}
    (inside : ∀ inner ∈ subfield.paths, store.Has (.path inner)) :
    (addSubfield subfield).Yields store fun id after =>
      after.subfield id = .ok subfield ∧ ¬ store.Has (.subfield id) := by
  have grown (id : SubfieldId) (value : Subfield PathId) :
      (addSubfield subfield store).2.subfield id = .ok value ↔
        store.subfield id = .ok value ∨ (id.number = store.subfields.size ∧ value = subfield) := by
    rw [subfield_eq_ok_iff, subfield_eq_ok_iff]
    simp only [addSubfield, Array.getElem?_push]
    grind
  refine ⟨.of_kept (fun _ _ => id) (fun _ _ => id) ?_ (fun _ _ => .inl) (fun _ _ => .inl) ?_, ?_, ?_⟩
  · exact fun id value found => (grown id value).mpr (.inl found)
  · intro other value found
    rcases (grown other value).mp found with old | ⟨-, rfl⟩
    · exact .inl old
    · exact .inr inside
  · exact (grown _ subfield).mpr (.inr ⟨rfl, rfl⟩)
  · rintro ⟨value, found⟩
    rw [subfield_eq_ok_iff] at found
    simp [addSubfield] at found

/-- A path is stored in front of which all that it refers to has been stored. -/
theorem addPath_yields {record : PathRecord} (field : store.Has (.field record.field))
    (subfields : ∀ subfield ∈ record.subfields, store.Has (.subfield subfield)) :
    (addPath record).Yields store fun id after =>
      after.path id = .ok record ∧ id.number = store.paths.size ∧
        after.paths.size = store.paths.size + 1 := by
  have grown (id : PathId) (value : PathRecord) : (addPath record store).2.path id = .ok value ↔
      store.path id = .ok value ∨ (id.number = store.paths.size ∧ value = record) := by
    rw [path_eq_ok_iff, path_eq_ok_iff]
    simp only [addPath, Array.getElem?_push]
    grind
  refine ⟨.of_kept ?_ (fun _ _ => id) (fun _ _ => id) ?_ (fun _ _ => .inl) (fun _ _ => .inl), ?_, rfl, ?_⟩
  · exact fun id value found => (grown id value).mpr (.inl found)
  · intro other value found
    rcases (grown other value).mp found with old | ⟨-, rfl⟩
    · exact .inl old
    · exact .inr ⟨field, subfields⟩
  · exact (grown _ record).mpr (.inr ⟨rfl, rfl⟩)
  · simp [addPath]

/-- What is found after the objects under one number have been changed. -/
private theorem getElem?_modify_eq_some_iff {items : Array α} {change : α → α} {number other : Nat}
    {value : α} : (items.modify number change)[other]? = some value ↔
      if other = number then ∃ item, items[number]? = some item ∧ change item = value
      else items[other]? = some value := by
  rw [Array.getElem?_modify]
  by_cases here : other = number
  · subst here
    simp
  · rw [if_neg here, if_neg fun same => here same.symm]

section Modify

variable {id : PathId} {fieldId : FieldId} {subfieldId : SubfieldId}

theorem modifyPath_path {other : PathId} {change : PathRecord → PathRecord} {record : PathRecord} :
    (modifyPath id change store).2.path other = .ok record ↔
      if other = id then ∃ old, store.path id = .ok old ∧ change old = record
      else store.path other = .ok record := by
  have same : other = id ↔ other.number = id.number := (PathId.mk.injEq _ _).to_iff
  simp only [path_eq_ok_iff, modifyPath, getElem?_modify_eq_some_iff, same]

theorem modifyField_field {other : FieldId} {change : Field PathId → Field PathId}
    {field : Field PathId} : (modifyField fieldId change store).2.field other = .ok field ↔
      if other = fieldId then ∃ old, store.field fieldId = .ok old ∧ change old = field
      else store.field other = .ok field := by
  have same : other = fieldId ↔ other.number = fieldId.number := (FieldId.mk.injEq _ _).to_iff
  simp only [field_eq_ok_iff, modifyField, getElem?_modify_eq_some_iff, same]

theorem modifySubfield_subfield {other : SubfieldId} {change : Subfield PathId → Subfield PathId}
    {subfield : Subfield PathId} :
    (modifySubfield subfieldId change store).2.subfield other = .ok subfield ↔
      if other = subfieldId then ∃ old, store.subfield subfieldId = .ok old ∧ change old = subfield
      else store.subfield other = .ok subfield := by
  have same : other = subfieldId ↔ other.number = subfieldId.number := (SubfieldId.mk.injEq _ _).to_iff
  simp only [subfield_eq_ok_iff, modifySubfield, getElem?_modify_eq_some_iff, same]

theorem has_modifyPath {change : PathRecord → PathRecord} (handle : Handle) (known : store.Has handle) :
    (modifyPath id change store).2.Has handle := by
  cases handle with
  | path other =>
    obtain ⟨record, read⟩ := known
    by_cases here : other = id
    · subst here
      exact ⟨change record, modifyPath_path.mpr (by rw [if_pos rfl]; exact ⟨record, read, rfl⟩)⟩
    · exact ⟨record, modifyPath_path.mpr (by rwa [if_neg here])⟩
  | field other => exact known
  | subfield other => exact known

theorem has_modifyField {change : Field PathId → Field PathId} (handle : Handle)
    (known : store.Has handle) : (modifyField fieldId change store).2.Has handle := by
  cases handle with
  | field other =>
    obtain ⟨field, held⟩ := known
    by_cases here : other = fieldId
    · subst here
      exact ⟨change field, modifyField_field.mpr (by rw [if_pos rfl]; exact ⟨field, held, rfl⟩)⟩
    · exact ⟨field, modifyField_field.mpr (by rwa [if_neg here])⟩
  | path other => exact known
  | subfield other => exact known

theorem has_modifySubfield {change : Subfield PathId → Subfield PathId} (handle : Handle)
    (known : store.Has handle) : (modifySubfield subfieldId change store).2.Has handle := by
  cases handle with
  | subfield other =>
    obtain ⟨subfield, held⟩ := known
    by_cases here : other = subfieldId
    · subst here
      exact ⟨change subfield, modifySubfield_subfield.mpr (by rw [if_pos rfl]; exact ⟨subfield, held, rfl⟩)⟩
    · exact ⟨subfield, modifySubfield_subfield.mpr (by rwa [if_neg here])⟩
  | path other => exact known
  | field other => exact known

theorem Closed.modifyPath {change : PathRecord → PathRecord} (closed : store.Closed)
    (refers : ∀ old, store.path id = .ok old → store.Has (.field (change old).field) ∧
      ∀ subfield ∈ (change old).subfields, store.Has (.subfield subfield)) :
    (modifyPath id change store).2.Closed := by
  refine closed.of_has has_modifyPath ?_ (fun _ _ => .inl) (fun _ _ => .inl)
  intro other record found
  rw [modifyPath_path] at found
  by_cases here : other = id
  · rw [if_pos here] at found
    obtain ⟨old, read, rfl⟩ := found
    obtain ⟨held, listed⟩ := refers old read
    exact .inr ⟨has_modifyPath _ held, fun subfield member => has_modifyPath _ (listed subfield member)⟩
  · rw [if_neg here] at found
    exact .inl found

theorem Closed.modifyField {change : Field PathId → Field PathId} (closed : store.Closed)
    (refers : ∀ old, store.field fieldId = .ok old →
      ∀ inner ∈ (change old).paths, store.Has (.path inner)) :
    (modifyField fieldId change store).2.Closed := by
  refine closed.of_has has_modifyField (fun _ _ => .inl) ?_ (fun _ _ => .inl)
  intro other field found
  rw [modifyField_field] at found
  by_cases here : other = fieldId
  · rw [if_pos here] at found
    obtain ⟨old, held, rfl⟩ := found
    exact .inr fun inner member => has_modifyField _ (refers old held inner member)
  · rw [if_neg here] at found
    exact .inl found

theorem Closed.modifySubfield {change : Subfield PathId → Subfield PathId} (closed : store.Closed)
    (refers : ∀ old, store.subfield subfieldId = .ok old →
      ∀ inner ∈ (change old).paths, store.Has (.path inner)) :
    (modifySubfield subfieldId change store).2.Closed := by
  refine closed.of_has has_modifySubfield (fun _ _ => .inl) (fun _ _ => .inl) ?_
  intro other subfield found
  rw [modifySubfield_subfield] at found
  by_cases here : other = subfieldId
  · rw [if_pos here] at found
    obtain ⟨old, held, rfl⟩ := found
    exact .inr fun inner member => has_modifySubfield _ (refers old held inner member)
  · rw [if_neg here] at found
    exact .inl found

end Modify
end MarcPath.Store
