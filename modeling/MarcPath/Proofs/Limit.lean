import MarcPath.Path.Tree
import MarcPath.Proofs.Ask
import MarcPath.Proofs.Fold

/-! Reading at other depths and under other limits. Neither shows in a path but by the nesting that
is stored with each layer, and by the paths that are nested too deep to be read. -/
namespace MarcPath

/-- What a tail adds, with other nested paths. -/
def Additions.map {ρ σ : Type} (f : ρ → σ) (additions : Additions ρ) : Additions σ :=
  ⟨additions.groups.map (Group.map f), additions.subfields.map (Subfield.map f)⟩

/-- The same depth under another limit. -/
def Nesting.withLimit (limit : Int) (nesting : Nesting) : Nesting :=
  { nesting with maxDepth := limit }

/-- A layer at another nesting. -/
def Layer.mapNesting {ρ : Type} (g : Nesting → Nesting) (layer : Layer ρ) : Layer ρ :=
  { layer with nesting := g layer.nesting }

section

variable {ρ σ : Type} {excused : Error → Prop} {f : ρ → σ}
  {nested : Text → Except Error ρ} {nested' : Text → Except Error σ} {context : Text}

theorem Operand.parse_refines (term : Text)
    (agree : ∀ asked, Operand.Asks context term asked →
      Refines excused f (nested asked) (nested' asked)) :
    Refines excused (Operand.map f) (Operand.parse nested context term)
      (Operand.parse nested' context term) := by
  rw [Operand.parse_eq, Operand.parse_eq]
  apply (Refines.refl _).bind
  intro request known
  cases request with
  | inl literal => exact .ok _
  | inr asked => exact (agree asked known).map fun path => rfl

theorem Term.parse_refines (term : Text)
    (agree : ∀ asked, term ≠ [] → Operand.Asks context term asked →
      Refines excused f (nested asked) (nested' asked)) :
    Refines excused (Term.map f) (Term.parse nested context term)
      (Term.parse nested' context term) := by
  unfold Term.parse
  split
  · exact .ok _
  · rename_i given
    refine (Operand.parse_refines term fun asked known => agree asked ?_ known).map fun operand => rfl
    simpa using given

theorem Condition.parse_refines {termSet : Text} (group : Text)
    (agree : ∀ asked, Condition.Asks context termSet asked →
      Refines excused f (nested asked) (nested' asked)) :
    Refines excused (Condition.map f) (Condition.parse nested context group termSet)
      (Condition.parse nested' context group termSet) := by
  rw [Condition.parse_eq, Condition.parse_eq]
  split
  · exact .error _
  · split
    · exact .error _
    · rename_i flat given
      have unbracketed := Text.unbracketed_of_any flat
      have left := Term.parse_refines (TermSet.parse termSet).terms.1
        fun asked nonempty known => agree asked ⟨unbracketed, _, nonempty, .inl rfl, known⟩
      have right := Operand.parse_refines (TermSet.parse termSet).terms.2
        fun asked known => agree asked ⟨unbracketed, _, by simpa using given, .inr rfl, known⟩
      exact left.bind fun left _ => right.bind fun right _ =>
        Refines.ok (Condition.mk left _ right _)

theorem Group.parse_refines {group : Text}
    (agree : ∀ asked, Group.Asks context group asked →
      Refines excused f (nested asked) (nested' asked)) :
    Refines excused (Group.map f) (Group.parse nested context group)
      (Group.parse nested' context group) := by
  cases cut : Group.inner? group with
  | none =>
    rw [Group.parse, Group.parse, cut]
    exact .error _
  | some inner =>
    rw [Group.parse_eq group inner cut, Group.parse_eq group inner cut]
    have conditions : ∀ termSet ∈ (Group.alternatives inner).1 :: (Group.alternatives inner).2,
        Refines excused (Condition.map f) (Condition.parse nested context group termSet)
          (Condition.parse nested' context group termSet) := fun termSet member =>
      Condition.parse_refines group fun asked known => agree asked ⟨inner, cut, termSet, member, known⟩
    have first := conditions _ List.mem_cons_self
    have others := Refines.mapM fun termSet member => conditions termSet (List.mem_cons_of_mem _ member)
    exact first.bind fun first _ => others.bind fun others _ => Refines.ok (Group.mk first others)

theorem Segment.subfield_refines {base token : Text} {groups : List Text}
    (agree : ∀ head, SubfieldHead.parse token = .ok head → ∀ group ∈ groups, ∀ asked,
      Group.Asks (base ++ head.render) group asked →
        Refines excused f (nested asked) (nested' asked)) :
    Refines excused (Subfield.map f) (Segment.subfield nested base groups token)
      (Segment.subfield nested' base groups token) := by
  apply (Refines.refl _).bind
  intro head read
  have attached := Refines.mapM fun group member =>
    Group.parse_refines (agree head read group member)
  exact attached.bind fun groups _ => Refines.ok (Subfield.mk head groups)

theorem Tail.additions_refines {base : Text} {tail : Tail}
    (agree : ∀ context group, tail.Attaches base context group → ∀ asked,
      Group.Asks context group asked → Refines excused f (nested asked) (nested' asked)) :
    Refines excused (Additions.map f) (tail.additions nested base)
      (tail.additions nested' base) := by
  have groups := Refines.mapM fun group member =>
    Group.parse_refines (agree base group (.field member))
  have segments : ∀ segment ∈ tail.segments,
      Refines excused (List.map (Subfield.map f)) (Segment.subfields nested base segment)
        (Segment.subfields nested' base segment) := by
    intro segment source
    apply (Refines.refl _).bind
    intro tokens expanded
    exact Refines.mapM fun token inside => Segment.subfield_refines fun head read group member =>
      agree _ group (.subfield source expanded inside read member)
  refine groups.bind fun groups _ => (Refines.mapM segments).bind fun parts _ => ?_
  simp only [← List.map_flatten]
  exact Refines.ok (Additions.mk groups parts.flatten)

theorem Layer.parseStripped_refines {nesting : Nesting} {text : Text} (g : Nesting → Nesting)
    (agree : ∀ asked, Layer.Asks text asked → Refines excused f (nested asked) (nested' asked)) :
    Refines excused (fun layer => (layer.map f).mapNesting g)
      (Layer.parseStripped nested nesting text) (Layer.parseStripped nested' (g nesting) text) := by
  rw [Layer.parseStripped_eq, Layer.parseStripped_eq]
  refine (Refines.refl _).bind fun (head, tail) known => ?_
  exact (Tail.additions_refines fun context group attached asked asks =>
    agree asked (.group known attached asks)).map fun additions => rfl

end

/-- A path may not be nested this deep. -/
def Error.TooDeep (error : Error) : Prop :=
  ∃ text, error = .invalid ⟨.path, .tooDeep, text⟩

namespace Path

/-- A path with the nesting of each of its layers replaced. -/
def mapNesting (g : Nesting → Nesting) : Path → Path :=
  fold fun layer => mk (layer.mapNesting g)

theorem mapNesting_mk (g : Nesting → Nesting) (layer : Layer Path) :
    mapNesting g (mk layer) = mk ((layer.map (mapNesting g)).mapNesting g) :=
  fold_mk _ layer

/-- The tree of a path does not show how deep it is nested. -/
theorem tree_mapNesting (g : Nesting → Nesting) (path : Path) :
    (path.mapNesting g).tree = path.tree := by
  refine congrFun (fold_unique (h := fun path => (path.mapNesting g).tree) fun layer => ?_) path
  have same : ((layer.map (mapNesting g)).mapNesting g).tree tree =
      (layer.map (mapNesting g)).tree tree := rfl
  rw [mapNesting_mk, tree_mk, same, Layer.tree_map, Layer.tree_map]
  rfl

/-- Nor does its text. -/
theorem render_mapNesting (g : Nesting → Nesting) (path : Path) :
    (path.mapNesting g).render = path.render := by
  obtain ⟨layer⟩ := path
  rw [mapNesting_mk]
  exact Layer.render_map _ layer

variable {g : Nesting → Nesting} {nesting : Nesting} {text : Text}

theorem parseWithin_refines (steps : ∀ nesting, g (Nesting.deeper nesting) = (g nesting).deeper)
    {levels more : Nat} (le : levels ≤ more) (nesting : Nesting) (text : Text) :
    Refines Error.TooDeep (mapNesting g) (parseWithin levels nesting text)
      (parseWithin more (g nesting) text) := by
  induction levels generalizing more nesting text with
  | zero => exact .inl ⟨_, rfl, text, rfl⟩
  | succ levels ih =>
    obtain ⟨more, rfl⟩ : ∃ fewer, more = fewer + 1 := ⟨more - 1, by omega⟩
    have nested : ∀ asked, Refines Error.TooDeep (mapNesting g)
        (parseWithin levels nesting.deeper asked) (parseWithin more (g nesting).deeper asked) := by
      intro asked
      rw [← steps]
      exact ih (by omega) nesting.deeper asked
    exact (Layer.parseStripped_refines g fun asked _ => nested asked).map fun layer =>
      (mapNesting_mk g layer).symm

/-- With more levels left, a path is read as before unless it was too deep. -/
theorem parse_refines (steps : ∀ nesting, g (Nesting.deeper nesting) = (g nesting).deeper)
    (more : nesting.levels ≤ (g nesting).levels) (text : Text) :
    Refines Error.TooDeep (mapNesting g) (parse nesting text) (parse (g nesting) text) :=
  parseWithin_refines steps more nesting text

/-- Only on the nested paths that are asked for does it matter how many levels are left. -/
theorem parse_refines_of_asks {excused : Error → Prop} (room : nesting.depth ≤ nesting.maxDepth)
    (room' : (g nesting).depth ≤ (g nesting).maxDepth)
    (agree : ∀ asked, Layer.Asks text.strip asked →
      Refines excused (mapNesting g) (parse nesting.deeper asked) (parse (g nesting).deeper asked)) :
    Refines excused (mapNesting g) (parse nesting text) (parse (g nesting) text) := by
  rw [parse_eq, parse_eq, if_neg (by omega), if_neg (by omega)]
  exact (Layer.parseStripped_refines g agree).map fun layer => (mapNesting_mk g layer).symm

end Path

/-- Under a higher limit a group is read as before, be it with the same result or with the same error,
unless a path was nested too deep for it. Any text may be the context, also one with groups of its own. -/
theorem Group.parseIn_withLimit {nesting : Nesting} {limit : Int} {context group : Text}
    (higher : nesting.maxDepth ≤ limit)
    (shallow : ∀ violation, Group.parseIn nesting context group = .error (.invalid violation) →
      violation.fault ≠ .tooDeep) :
    Group.parseIn (nesting.withLimit limit) context group =
      (Group.parseIn nesting context group).map
        (Group.map (Path.mapNesting (Nesting.withLimit limit))) := by
  have more : nesting.deeper.levels ≤ (nesting.deeper.withLimit limit).levels := by
    simp only [Nesting.levels, Nesting.deeper, Nesting.withLimit]
    omega
  have refines : Refines Error.TooDeep (Group.map (Path.mapNesting (Nesting.withLimit limit)))
      (Group.parseIn nesting context group) (Group.parseIn (nesting.withLimit limit) context group) :=
    Group.parse_refines fun asked _ =>
      Path.parse_refines (g := Nesting.withLimit limit) (fun _ => rfl) more asked
  rcases refines with ⟨error, failed, text, rfl⟩ | same
  · exact absurd rfl (shallow _ failed)
  · exact same

/-- The context has a group, whose path is one level deeper than that of the term. -/
theorem Group.parseIn_withLimit_of_context :
    Group.parseIn ⟨1, 0⟩ "245{246}".toList "{$c}".toList = violates .path .tooDeep "246".toList ∧
      ∃ read, Group.parseIn ⟨2, 0⟩ "245{246}".toList "{$c}".toList = .ok read ∧
        Group.parseIn ⟨5, 0⟩ "245{246}".toList "{$c}".toList =
          .ok (read.map (Path.mapNesting (Nesting.withLimit 5))) := by
  refine ⟨rfl, ?_⟩
  obtain ⟨read, found⟩ : ∃ read,
      Group.parseIn ⟨2, 0⟩ "245{246}".toList "{$c}".toList = .ok read := ⟨_, rfl⟩
  have raised : Group.parseIn (Nesting.withLimit 5 ⟨2, 0⟩) _ _ = _ :=
    Group.parseIn_withLimit (by decide) fun violation failed => by
      rw [found] at failed
      cases failed
  rw [found] at raised
  exact ⟨read, found, raised⟩

end MarcPath
