import ClosedWorld.Proofs.World.Hierarchy
import ClosedWorld.Proofs.World.WellFormed
import ClosedWorld.World.Link

/-!
# Linking

The hierarchy of the declarations is written down class by class: the superclass that a class names and
the interfaces that it names, each once, as far as they are registered (`declared_parents`,
`declared_interfaces`). It changes with the declarations only: removing a class takes it out there, and a
new body leaves it alone. Linking succeeds exactly if it has no cycle (`link_of_acyclic`,
`link_of_cyclic`).
-/

namespace ClosedWorld

/-! ### Lists without their repetitions -/

theorem nodup_eraseDups {α : Type} [DecidableEq α] (l : List α) : l.eraseDups.Nodup := by
  induction hn : l.length using Nat.strongRecOn generalizing l with
  | _ n ih =>
    cases l with
    | nil => simp
    | cons a l =>
      have hlt : (l.filter fun b => !b == a).length < n := by
        rw [← hn]; exact Nat.lt_succ_of_le (List.length_filter_le _ _)
      rw [List.eraseDups_cons]
      exact List.nodup_cons.2 ⟨by simp [List.mem_eraseDups], ih _ hlt _ rfl⟩

theorem eraseDups_filter {α : Type} [DecidableEq α] (p : α → Bool) (l : List α) :
    (l.filter p).eraseDups = l.eraseDups.filter p := by
  induction hn : l.length using Nat.strongRecOn generalizing l with
  | _ n ih =>
    cases l with
    | nil => simp
    | cons a l =>
      have hlt : (l.filter fun b => !b == a).length < n := by
        rw [← hn]; exact Nat.lt_succ_of_le (List.length_filter_le _ _)
      have hl := ih _ hlt _ rfl
      rw [List.filter_filter] at hl
      by_cases ha : p a
      · rw [List.filter_cons_of_pos ha, List.eraseDups_cons, List.eraseDups_cons,
          List.filter_cons_of_pos ha, ← hl, List.filter_filter]
        simp only [Bool.and_comm]
      · rw [List.filter_cons_of_neg ha, List.eraseDups_cons, List.filter_cons_of_neg ha, ← hl]
        congr 1
        refine List.filter_congr fun b _ => ?_
        cases hb : p b
        · simp
        · have hne : b ≠ a := fun e => ha (e ▸ hb)
          simp [hne]

namespace World
variable {w : World} {c : ClassEntry}

/-! ### The declared hierarchy, class by class -/

theorem declared_parents (w : World) : w.declaredHierarchy.parents =
    .ofList (Arrows.ofTargets w.classes (·.id) fun c => (c.super?.bind w.lookup?).toList) :=
  congrArg Edges.ofList Arrows.filterMap_eq_ofTargets

theorem declared_interfaces (w : World) : w.declaredHierarchy.interfaces =
    .ofList (Arrows.ofTargets w.classes (·.id) fun c => (c.interfaces.filterMap w.lookup?).eraseDups) :=
  rfl

theorem lookup?_mem_ids {name : ClassName} {id : ClassId} (h : w.lookup? name = some id) :
    id ∈ w.ids := by
  obtain ⟨c, hc, rfl⟩ := Option.map_eq_some_iff.1 h
  exact List.mem_map_of_mem (List.mem_of_find?_eq_some hc)

theorem declaredHierarchy_over (hw : w.WellFormed) : w.declaredHierarchy.Over w.ids where
  parents := by
    rw [declared_parents]
    refine .ofList fun x hx => ?_
    obtain ⟨c, hc, h1, h2⟩ := Arrows.mem_ofTargets.1 hx
    obtain ⟨n, -, hn⟩ := Option.bind_eq_some_iff.1 (Option.mem_toList.1 h2)
    exact ⟨mem_ids.2 ⟨c, hc, h1⟩, lookup?_mem_ids hn⟩
  interfaces := by
    refine .ofList fun x hx => ?_
    obtain ⟨c, hc, h1, h2⟩ := Arrows.mem_ofTargets.1 hx
    obtain ⟨n, -, hn⟩ := List.mem_filterMap.1 (List.mem_eraseDups.1 h2)
    exact ⟨mem_ids.2 ⟨c, hc, h1⟩, lookup?_mem_ids hn⟩
  parents_nodup := by
    rw [declared_parents, Edges.outward_ofList]
    exact hw.ids_nodup.sublist
      (Arrows.map_fst_ofTargets_sublist fun c _ => Option.length_toList_le)
  interfaces_nodup := by
    rw [declared_interfaces, Edges.outward_ofList]
    exact Arrows.nodup_ofTargets hw.ids_nodup fun c _ => nodup_eraseDups _

theorem declaredHierarchy_remove (hw : w.WellFormed) (c : ClassEntry) :
    (w.remove c).declaredHierarchy = w.declaredHierarchy.dropClass c.id := by
  -- both sides are written down class by class; a name of `c` leads nowhere on the left
  have hclasses : w.classes.filter (·.id ∉ [c.id]) = (w.remove c).classes :=
    List.filter_congr fun e _ => by simp [bne, Bool.beq_eq_decide_eq]
  have hlookup := hw.lookup?_remove c
  have hp : (w.remove c).declaredHierarchy.parents =
      w.declaredHierarchy.parents.without [c.id] [c.id] := by
    rw [declared_parents, declared_parents, Edges.without_ofList, Arrows.without_ofTargets, hclasses]
    refine congrArg Edges.ofList (Arrows.ofTargets_congr fun e _ => ?_)
    cases e.super? with
    | none => rfl
    | some n => simp [hlookup, Option.toList_filter]
  have hi : (w.remove c).declaredHierarchy.interfaces =
      w.declaredHierarchy.interfaces.without [c.id] [c.id] := by
    rw [declared_interfaces, declared_interfaces, Edges.without_ofList, Arrows.without_ofTargets,
      hclasses]
    refine congrArg Edges.ofList (Arrows.ofTargets_congr fun e _ => ?_)
    rw [← eraseDups_filter, List.filter_filterMap]
    simp [hlookup]
  rw [(declaredHierarchy_over hw).dropClass_eq]
  exact congr (congrArg Hierarchy.mk hp) hi

theorem declaredHierarchy_withBody (id : MethodId) (body : Body) :
    (w.withBody id body).declaredHierarchy = w.declaredHierarchy := by
  simp [declaredHierarchy, List.filterMap_map, List.flatMap_map, Function.comp_def]

/-! ### Linking by its outcome -/

def linked (w : World) : World :=
  { w with hierarchy := w.declaredHierarchy, references := {}, stage := .linked }

theorem stage_linked_ne (w : World) : w.linked.stage ≠ .unlinked := fun h => by cases h

theorem link_of_acyclic (hw : w.WellFormed) (ha : w.declaredHierarchy.Acyclic) :
    w.link = (.ok (), w.linked) := by
  have hc : w.dropDerived.declaredHierarchy.cycle? w.dropDerived.ids = none :=
    (declaredHierarchy_over hw).cycle?_eq_none_iff.2 ha
  simp only [link, hc, Option.bind_none]
  rfl

/-- A cycle is reported by the name of a class on it, and nothing is derived. -/
theorem link_of_cyclic (hw : w.WellFormed) (ha : ¬ w.declaredHierarchy.Acyclic) :
    ∃ c ∈ w.classes, Relation.TransGen (Graph.Edge w.declaredHierarchy.supertypes) c.id c.id ∧
      w.link = (.error (.cyclicInheritance c.name), w.dropDerived) := by
  have ho := declaredHierarchy_over hw
  obtain ⟨id, hid⟩ := Option.ne_none_iff_exists'.1 (mt ho.cycle?_eq_none_iff.1 ha)
  obtain ⟨hmem, hcycle⟩ := ho.of_cycle?_eq_some hid
  obtain ⟨c, hc, rfl⟩ := mem_ids.1 hmem
  refine ⟨c, hc, hcycle, ?_⟩
  have hfound : (w.dropDerived.declaredHierarchy.cycle? w.dropDerived.ids).bind
      w.dropDerived.class? = some c := by
    show (w.declaredHierarchy.cycle? w.ids).bind w.class? = some c
    rw [hid]
    exact hw.class?_eq_some_iff.2 ⟨hc, rfl⟩
  simp only [link, hfound]

end World
end ClosedWorld
