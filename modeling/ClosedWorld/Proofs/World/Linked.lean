import ClosedWorld.Proofs.World.Moves

/-!
# A linked hierarchy is the declared one

As long as a world counts as linked, its hierarchy is the one that the declarations of its classes
describe, and that one has no cycle (`HierarchyCurrent`): linking derives it so, removal takes the same
edges out on both sides, a body says nothing about it, and every other change makes the world unlinked.
So what surrounds a class can be read off the declarations (`Placed`), and linking again would change
nothing (`Relinks`).
-/

namespace ClosedWorld.World
variable {w : World} {c : ClassEntry}

/-- While a world is linked, its hierarchy is that of its declarations, without cycles. -/
def HierarchyCurrent (w : World) : Prop :=
  w.stage ≠ .unlinked → w.hierarchy = w.declaredHierarchy ∧ w.declaredHierarchy.Acyclic

theorem HierarchyCurrent.move {w' : World} (hw : w.WellFormed) (ih : w.HierarchyCurrent)
    (hm : Move w w') : w'.HierarchyCurrent := by
  intro hs
  cases hm with
  | @remove c hc =>
    obtain ⟨heq, ha⟩ := ih fun e => hs (Stage.withoutIndex_eq_unlinked.2 e)
    rw [declaredHierarchy_remove hw]
    exact ⟨congrArg (·.dropClass c.id) heq, (declaredHierarchy_over hw).acyclic_dropClass ha c.id⟩
  | insert hd => exact absurd rfl hs
  | withBody hid =>
    rw [declaredHierarchy_withBody]
    exact ih fun e => hs (Stage.withoutIndex_eq_unlinked.2 e)
  | dropDerived => exact absurd rfl hs
  | link ha => exact ⟨rfl, ha⟩
  | index hs' => exact ih hs'

theorem Reachable.hierarchyCurrent (h : w.Reachable) : w.HierarchyCurrent :=
  h.induct (fun _ hs => absurd rfl hs) fun _ _ hw ih hm => ih.move hw hm

theorem Reachable.acyclic (h : w.Reachable) (hs : w.stage ≠ .unlinked) : w.hierarchy.Acyclic := by
  obtain ⟨heq, ha⟩ := h.hierarchyCurrent hs
  rw [heq]
  exact ha

/-! ### The views of a declared hierarchy -/

theorem parent?_declared (hw : w.WellFormed) (hc : c ∈ w.classes) :
    w.declaredHierarchy.parent? c.id = c.super?.bind w.lookup? := by
  rw [Hierarchy.parent?, declared_parents, Edges.targets_ofList,
    Arrows.targets_ofTargets hw.ids_nodup hc]
  cases c.super?.bind w.lookup? <;> rfl

theorem children_declared (hw : w.WellFormed) (hc : c ∈ w.classes) :
    w.declaredHierarchy.children c.id = (w.classes.filter (·.super? = some c.name)).map (·.id) := by
  have hnodup : ∀ e ∈ w.classes, (e.super?.bind w.lookup?).toList.Nodup := fun e _ => by
    cases e.super?.bind w.lookup? <;> simp
  rw [Hierarchy.children, declared_parents, Edges.sources_ofList,
    Arrows.sources_ofTargets hnodup]
  congr 1
  refine List.filter_congr fun e _ => decide_eq_decide.2 ?_
  rw [Option.mem_toList]
  constructor
  · intro he
    obtain ⟨n, hn, hl⟩ := Option.bind_eq_some_iff.1 he
    rw [hn, (hw.lookup?_eq_id_iff hc).1 hl]
  · intro he
    exact Option.bind_eq_some_iff.2 ⟨c.name, he, hw.lookup?_of_mem hc⟩

theorem interfacesOf_declared (hw : w.WellFormed) (hc : c ∈ w.classes) :
    w.declaredHierarchy.interfacesOf c.id = (c.interfaces.filterMap w.lookup?).eraseDups := by
  rw [Hierarchy.interfacesOf, declared_interfaces, Edges.targets_ofList,
    Arrows.targets_ofTargets hw.ids_nodup hc]

theorem implementers_declared (hw : w.WellFormed) (hc : c ∈ w.classes) :
    w.declaredHierarchy.implementers c.id = (w.classes.filter (c.name ∈ ·.interfaces)).map (·.id) := by
  rw [Hierarchy.implementers, declared_interfaces, Edges.sources_ofList,
    Arrows.sources_ofTargets fun e _ => nodup_eraseDups _]
  congr 1
  refine List.filter_congr fun e _ => decide_eq_decide.2 ?_
  rw [List.mem_eraseDups, List.mem_filterMap]
  constructor
  · rintro ⟨n, hn, hl⟩
    rwa [← (hw.lookup?_eq_id_iff hc).1 hl]
  · intro hn
    exact ⟨c.name, hn, hw.lookup?_of_mem hc⟩

/-! ### The result -/

/-- What surrounds a class in the hierarchy is what the declarations of the registered classes say. -/
structure Placed (w : World) (c : ClassEntry) : Prop where
  parent : w.hierarchy.parent? c.id = c.super?.bind w.lookup?
  children : w.hierarchy.children c.id = (w.classes.filter (·.super? = some c.name)).map (·.id)
  interfaces : w.hierarchy.interfacesOf c.id = (c.interfaces.filterMap w.lookup?).eraseDups
  implementers : w.hierarchy.implementers c.id =
    (w.classes.filter (c.name ∈ ·.interfaces)).map (·.id)
  implementers_nodup : (w.hierarchy.implementers c.id).Nodup

theorem Reachable.placed (h : w.Reachable) (hs : w.stage ≠ .unlinked) (hc : c ∈ w.classes) :
    w.Placed c := by
  have hw := h.wellFormed
  obtain ⟨heq, -⟩ := h.hierarchyCurrent hs
  have himplementers := implementers_declared hw hc
  rw [← heq] at himplementers
  refine ⟨?_, ?_, ?_, himplementers, ?_⟩
  · rw [heq, parent?_declared hw hc]
  · rw [heq, children_declared hw hc]
  · rw [heq, interfacesOf_declared hw hc]
  · rw [himplementers]
    exact hw.ids_nodup.sublist (List.filter_sublist.map _)

/-- Linking again succeeds and derives the hierarchy that is already there. -/
def Relinks (w : World) : Prop := w.link = (.ok (), { w with references := {}, stage := .linked })

theorem Reachable.relinks (h : w.Reachable) (hs : w.stage ≠ .unlinked) : w.Relinks := by
  obtain ⟨heq, ha⟩ := h.hierarchyCurrent hs
  rw [Relinks, link_of_acyclic h.wellFormed ha, linked, heq]

theorem unregister_stage (hs : w.stage ≠ .unlinked) (id : ClassId) :
    (w.unregister id).2.stage ≠ .unlinked := by
  rcases w.unregister_snd id with h | ⟨c, -, h⟩
  · rw [h]; exact hs
  · rw [h]; exact fun e => hs (Stage.withoutIndex_eq_unlinked.1 e)

/-- In a linked world the superclass, the subclasses, the interfaces and the implementers of each class
are those that the declarations of the registered classes determine, and the hierarchy is the one that
linking would derive, after the removal of a class too. -/
theorem hierarchy_of_declarations (h : w.Reachable) (hs : w.stage ≠ .unlinked) :
    (∀ c ∈ w.classes, w.Placed c) ∧ w.Relinks ∧ ∀ id, (w.unregister id).2.Relinks :=
  ⟨fun _ hc => h.placed hs hc, h.relinks hs,
    fun id => (h.apply (.unregister id)).relinks (unregister_stage hs id)⟩

theorem hierarchy_of_declarations_shapes :
    let w := ofShapes [.link, .unregister ⟨1⟩]
    (w.Reachable ∧ w.stage ≠ .unlinked) ∧
      (∀ c ∈ w.classes, w.Placed c) ∧ w.Relinks ∧ ∀ id, (w.unregister id).2.Relinks :=
  ⟨⟨reachable_ofShapes _, by decide +kernel⟩,
    hierarchy_of_declarations (reachable_ofShapes _) (by decide +kernel)⟩

end ClosedWorld.World
