import ClosedWorld.Proofs.World.Indexed
import ClosedWorld.Proofs.World.References
import ClosedWorld.Proofs.World.Resolution

/-!
# No edge dangles

`Closed`: the hierarchy is one over the registered classes and the references are within the world. All
moves keep that, whether the edges are current or stale: removal takes the edges of the removed class
and of its members away with it, linking and indexing lead only to what they look up in the world, and
nothing else touches an edge. So in every reachable world both ends of each edge are registered and list
each other equally often (`Reciprocal`).
-/

namespace ClosedWorld

/-! ### What indexing leads to is registered -/

namespace Resolver
variable {r : Resolver} {i : Instruction}

theorem callee?_mem {m : MethodId} (h : r.callee? i = some m) : m ∈ r.world.methodIds := by
  unfold callee? at h
  split at h
  · obtain ⟨t, ht, rfl⟩ := Option.map_eq_some_iff.1 h
    exact (methodOf?_declares ht).mem_methodIds
  · cases h

theorem mem_of_fieldOf? {ref : FieldRef} {f : FieldId}
    (h : (r.fieldOf? ref).map (·.member.id) = some f) : f ∈ r.world.fieldIds := by
  obtain ⟨t, ht, rfl⟩ := Option.map_eq_some_iff.1 h
  exact (fieldOf?_declares ht).mem_fieldIds

theorem readField?_mem {f : FieldId} (h : r.readField? i = some f) : f ∈ r.world.fieldIds := by
  unfold readField? at h
  split at h
  · exact mem_of_fieldOf? h
  · exact mem_of_fieldOf? h
  · cases h

theorem writtenField?_mem {f : FieldId} (h : r.writtenField? i = some f) :
    f ∈ r.world.fieldIds := by
  unfold writtenField? at h
  split at h
  · exact mem_of_fieldOf? h
  · exact mem_of_fieldOf? h
  · cases h

theorem memberOwner?_mem {c : ClassId} (h : r.memberOwner? i = some c) : c ∈ r.world.ids := by
  unfold memberOwner? at h
  split at h
  · obtain ⟨t, ht, rfl⟩ := Option.map_eq_some_iff.1 h
    exact (methodOf?_declares ht).mem_ids
  · obtain ⟨t, ht, rfl⟩ := Option.map_eq_some_iff.1 h
    exact (fieldOf?_declares ht).mem_ids
  · cases h

theorem namedClass?_mem {c : ClassId} (h : r.namedClass? i = some c) : c ∈ r.world.ids := by
  unfold namedClass? at h
  split at h
  · obtain ⟨n, -, hn⟩ := Option.bind_eq_some_iff.1 h
    exact World.lookup?_mem_ids hn
  · cases h

theorem classOf?_mem {c : ClassId} (h : r.classOf? i = some c) : c ∈ r.world.ids := by
  rcases (Option.orElse_eq_some _ _ _).1 h with h | ⟨-, h⟩
  · exact memberOwner?_mem h
  · exact namedClass?_mem h

end Resolver

theorem Resolver.within_ofFindings {r : Resolver} (hw : r.world.WellFormed) :
    (References.ofFindings r.findings).Within r.world where
  calls := r.calls_findings ▸ World.between_reading fun _ _ => callee?_mem
  reads := r.reads_findings ▸ World.between_reading fun _ _ => readField?_mem
  writes := r.writes_findings ▸ World.between_reading fun _ _ => writtenField?_mem
  types := r.types_findings ▸ World.between_reading fun _ _ => classOf?_mem
  fieldTypes x hx := by
    rw [fieldTypes_findings] at hx
    split at hx
    · obtain ⟨y, hy, hx⟩ := List.mem_filterMap.1 hx
      obtain ⟨t, ht, rfl⟩ := Option.map_eq_some_iff.1 hx
      obtain ⟨n, hn, ht⟩ := Option.bind_eq_some_iff.1 ht
      obtain ⟨c, hc, rfl, rfl⟩ := hw.lookup?_eq_some_iff.1 ht
      exact ⟨y, hy, rfl, c, hc, rfl, hn⟩
    · cases hx
  fieldTypes_nodup := by
    rw [fieldTypes_findings]
    split
    · rw [Arrows.filterMap_eq_ofTargets]
      exact hw.fieldIds_nodup.sublist
        (Arrows.map_fst_ofTargets_sublist fun _ _ => Option.length_toList_le)
    · exact List.nodup_nil

/-! ### The invariant -/

namespace World
variable {w w' : World}

structure Closed (w : World) : Prop where
  hierarchy : w.hierarchy.Over w.ids
  references : w.references.Within w

namespace Closed

theorem empty (s : Settings) : (World.empty s).Closed := ⟨.empty _, .empty _⟩

theorem move (hw : w.WellFormed) (h : w.Closed) (hm : Move w w') : w'.Closed := by
  cases hm with
  | @remove c hc =>
    refine ⟨(h.hierarchy.dropClass c.id).mono fun i hi => ?_, ?_⟩
    · exact WellFormed.mem_ids_remove.2 (by simpa using List.mem_filter.1 hi)
    · rw [h.references.remove_references hw hc]
      exact h.references.without hw hc
  | @insert d hd =>
    refine ⟨h.hierarchy.mono fun i hi => ?_, h.references.insert d⟩
    rw [ids, insert_classes, List.map_append]
    exact List.mem_append_left _ hi
  | @withBody id body hid =>
    refine ⟨h.hierarchy.mono fun i hi => ?_, h.references.withBody id body⟩
    rwa [withBody_ids]
  | dropDerived => exact ⟨.empty _, .empty _⟩
  | link ha => exact ⟨declaredHierarchy_over hw, .empty _⟩
  | index hs =>
    have hr := Resolver.within_ofFindings (r := ⟨w, hs⟩) hw
    exact ⟨h.hierarchy, hr.mono (fun _ h => h) (fun _ h => h) (fun _ h => h) fun _ _ h => h⟩

end Closed

theorem Reachable.closed (h : w.Reachable) : w.Closed :=
  h.induct Closed.empty fun _ _ hw ih hm => ih.move hw hm

end World

/-! ### The result -/

/-- Each end lists the other equally often, and all that is listed is registered, with what lists it. -/
structure Edges.Joins {α β : Type} [DecidableEq α] [DecidableEq β] (e : Edges α β) (as : List α)
    (bs : List β) : Prop where
  targets : ∀ a, ∀ b ∈ e.targets a, a ∈ as ∧ b ∈ bs
  sources : ∀ b, ∀ a ∈ e.sources b, a ∈ as ∧ b ∈ bs
  count : ∀ a b, (e.targets a).count b = (e.sources b).count a

theorem Edges.Between.joins {α β : Type} [DecidableEq α] [DecidableEq β] {e : Edges α β}
    {as : List α} {bs : List β} (h : e.Between as bs) : e.Joins as bs :=
  ⟨fun _ _ => h.mem_of_target, fun _ _ => h.mem_of_source, h.agree.count_eq⟩

namespace World
variable {w : World}

/-- All edges are listed at both of their ends, which are registered. A field is listed at most once,
and only at the class that its type mentions. -/
structure Reciprocal (w : World) : Prop where
  parent : ∀ c p, w.hierarchy.parent? c = some p ↔ c ∈ w.hierarchy.children p
  children : ∀ p, (w.hierarchy.children p).Nodup
  parents : w.hierarchy.parents.Joins w.ids w.ids
  interfaces : w.hierarchy.interfaces.Joins w.ids w.ids
  calls : w.references.calls.Joins w.methodIds w.methodIds
  reads : w.references.reads.Joins w.methodIds w.fieldIds
  writes : w.references.writes.Joins w.methodIds w.fieldIds
  types : w.references.types.Joins w.methodIds w.ids
  fieldTypes : ∀ t, ∀ f ∈ w.references.fieldTypes.sources t, w.Mentions f t
  fieldTypes_count : ∀ t f, (w.references.fieldTypes.sources t).count f ≤ 1

/-- In every reachable world, linked and indexed or not, no edge dangles and all are reciprocal. -/
theorem edges_reciprocal (h : w.Reachable) : w.Reciprocal where
  parent c p := by
    rw [h.closed.hierarchy.parent?_eq_some_iff, Hierarchy.children,
      h.closed.hierarchy.parents.agree.sources_eq, Arrows.mem_sources]
  children p := by
    rw [Hierarchy.children, h.closed.hierarchy.parents.agree.sources_eq]
    exact h.closed.hierarchy.parents_nodup.sublist (Arrows.sources_sublist _ _)
  parents := h.closed.hierarchy.parents.joins
  interfaces := h.closed.hierarchy.interfaces.joins
  calls := h.closed.references.calls.joins
  reads := h.closed.references.reads.joins
  writes := h.closed.references.writes.joins
  types := h.closed.references.types.joins
  fieldTypes t f hf := h.closed.references.fieldTypes (f, t) (Arrows.mem_sources.1 hf)
  fieldTypes_count t f := by
    have hnodup := h.closed.references.fieldTypes_nodup.sublist (Arrows.sources_sublist _ t)
    exact List.nodup_iff_count_le_one.1 hnodup f

/-- The edges of the other shapes are still there when the interface is replaced. -/
theorem edges_reciprocal_shapes :
    let w := ofShapes (.linkAndIndex :: (shapes.take 1).map .register)
    (w.Reachable ∧ w.stage = .unlinked ∧ w.references.types.outward ≠ []) ∧ w.Reciprocal :=
  ⟨⟨reachable_ofShapes _, by decide +kernel, by decide +kernel⟩,
    edges_reciprocal (reachable_ofShapes _)⟩

end World
end ClosedWorld
