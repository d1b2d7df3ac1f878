import ClosedWorld.Proofs.World.Closed

/-!
# Removal prunes exactly

Removing a class takes the class and its members out one by one, and only what they list forgets them.
As no edge dangles and both ends of an edge list it, this filters each list of what is left by just the
removed identifiers (`pruned_remove`), in every stage.
-/

namespace ClosedWorld

/-- Without some of the sources and some of the targets, the others list what they did without those. -/
structure Edges.Pruned {α β : Type} [DecidableEq α] [DecidableEq β] (e e' : Edges α β) (as : List α)
    (bs : List β) : Prop where
  targets : ∀ a ∉ as, e'.targets a = (e.targets a).filter (· ∉ bs)
  sources : ∀ b ∉ bs, e'.sources b = (e.sources b).filter (· ∉ as)

theorem Edges.pruned_without {α β : Type} [DecidableEq α] [DecidableEq β] (e : Edges α β)
    (as : List α) (bs : List β) : e.Pruned (e.without as bs) as bs :=
  ⟨fun _ => targets_without, fun _ => sources_without⟩

theorem Hierarchy.Over.parent?_dropClass {h : Hierarchy} {ids : List ClassId} (ho : h.Over ids)
    {c d : ClassId} (hd : d ≠ c) : (h.dropClass c).parent? d = (h.parent? d).filter (· ≠ c) := by
  refine Option.ext fun p => ?_
  rw [(ho.dropClass c).parent?_eq_some_iff, ho.dropClass_eq, Option.filter_eq_some_iff,
    ho.parent?_eq_some_iff]
  refine Arrows.mem_without.trans ?_
  simp [hd]

namespace World
variable {w : World} {c : ClassEntry}

/-- What one world is after the removal of a class from another. -/
structure Pruned (w : World) (c : ClassEntry) (w' : World) : Prop where
  /-- Declarations and bodies stay, and so does the order of registration. -/
  classes : w'.classes = w.classes.filter (·.id ≠ c.id)
  ids : ∀ i, i ∈ w'.ids ↔ i ∈ w.ids ∧ i ≠ c.id
  methodIds : ∀ m, m ∈ w'.methodIds ↔ m ∈ w.methodIds ∧ m ∉ c.methodIds
  fieldIds : ∀ f, f ∈ w'.fieldIds ↔ f ∈ w.fieldIds ∧ f ∉ c.fieldIds
  parent : ∀ d ≠ c.id, w'.hierarchy.parent? d = (w.hierarchy.parent? d).filter (· ≠ c.id)
  parents : w.hierarchy.parents.Pruned w'.hierarchy.parents [c.id] [c.id]
  interfaces : w.hierarchy.interfaces.Pruned w'.hierarchy.interfaces [c.id] [c.id]
  calls : w.references.calls.Pruned w'.references.calls c.methodIds c.methodIds
  reads : w.references.reads.Pruned w'.references.reads c.methodIds c.fieldIds
  writes : w.references.writes.Pruned w'.references.writes c.methodIds c.fieldIds
  types : w.references.types.Pruned w'.references.types c.methodIds [c.id]
  strings : ∀ d ≠ c.id, w'.references.strings.targets d = w.references.strings.targets d
  fieldTypes : ∀ d ≠ c.id, w'.references.fieldTypes.sources d =
    (w.references.fieldTypes.sources d).filter (· ∉ c.fieldIds)

theorem pruned_remove (hw : w.WellFormed) (h : w.Closed) (hc : c ∈ w.classes) :
    w.Pruned c (w.remove c) := by
  have hh : (w.remove c).hierarchy = w.hierarchy.dropClass c.id := rfl
  have heq := h.hierarchy.dropClass_eq c.id
  have hr := h.references.remove_references hw hc
  refine ⟨?_, fun _ => WellFormed.mem_ids_remove, fun _ => hw.mem_methodIds_remove hc,
    fun _ => hw.mem_fieldIds_remove hc, fun d hd => ?_, ?_, ?_, ?_, ?_, ?_, ?_, fun d hd => ?_,
    fun d hd => ?_⟩
  · exact List.filter_congr fun d _ => by simp [bne, Bool.beq_eq_decide_eq]
  · rw [hh, h.hierarchy.parent?_dropClass hd]
  · rw [hh, heq]; exact Edges.pruned_without _ _ _
  · rw [hh, heq]; exact Edges.pruned_without _ _ _
  · rw [hr]; exact Edges.pruned_without _ _ _
  · rw [hr]; exact Edges.pruned_without _ _ _
  · rw [hr]; exact Edges.pruned_without _ _ _
  · rw [hr]; exact Edges.pruned_without _ _ _
  · rw [hr, References.without, Arrows.targets_without (by simpa using hd)]
    simp
  · rw [hr, References.without, Arrows.sources_without (by simpa using hd)]

/-- Removing a registered class answers its declaration and filters every list that is left by just the
identifiers of the class and of its members. Removing another identifier changes nothing. -/
theorem removal_prunes (h : w.Reachable) :
    (∀ c ∈ w.classes,
      (w.unregister c.id).1 = some c.decl ∧ w.Pruned c (w.unregister c.id).2) ∧
    ∀ id ∉ w.ids, w.unregister id = (none, w) := by
  have hw := h.wellFormed
  refine ⟨fun c hc => ?_, fun id hid => unregister_of_not_mem hid⟩
  rw [unregister_of_class? (hw.class?_eq_some_iff.2 ⟨hc, rfl⟩)]
  exact ⟨rfl, pruned_remove hw h.closed hc⟩

theorem removal_prunes_shapes :
    let w := ofShapes [.linkAndIndex]
    w.Reachable ∧
      (∀ c ∈ w.classes,
        (w.unregister c.id).1 = some c.decl ∧ w.Pruned c (w.unregister c.id).2) ∧
      ∀ id ∉ w.ids, w.unregister id = (none, w) :=
  ⟨reachable_ofShapes _, removal_prunes (reachable_ofShapes _)⟩

end World
end ClosedWorld
