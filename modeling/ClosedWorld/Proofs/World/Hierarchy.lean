import ClosedWorld.Proofs.Graph.DepthFirst
import ClosedWorld.Proofs.Graph.Edges
import ClosedWorld.World.Hierarchy

/-!
# Hierarchies over a list of classes

`Over`: a hierarchy joins only the listed classes and is the same seen from above and from below. It
gives each class at most one superclass and names no interface of a class twice. Taking a class out
takes just the edges away that touch it (`Over.dropClass_eq`); that keeps a hierarchy over the other
classes and can close no cycle. Over its classes, the search for a cycle finds nothing exactly if no
class is its own proper supertype (`Over.cycle?_eq_none_iff`).
-/

namespace ClosedWorld.Hierarchy
open Relation

structure Over (h : Hierarchy) (ids : List ClassId) : Prop where
  parents : h.parents.Between ids ids
  interfaces : h.interfaces.Between ids ids
  parents_nodup : (h.parents.outward.map (·.1)).Nodup
  interfaces_nodup : h.interfaces.outward.Nodup

/-- No class is a proper supertype of itself. -/
def Acyclic (h : Hierarchy) : Prop := ∀ c, ¬ TransGen (Graph.Edge h.supertypes) c c

namespace Over
variable {h : Hierarchy} {ids ids' : List ClassId} {c p : ClassId}

theorem empty (ids : List ClassId) : Over {} ids := ⟨.empty, .empty, by simp, by simp⟩

theorem mono (ho : h.Over ids) (hi : ∀ i ∈ ids, i ∈ ids') : h.Over ids' where
  parents := ho.parents.mono hi hi
  interfaces := ho.interfaces.mono hi hi
  parents_nodup := ho.parents_nodup
  interfaces_nodup := ho.interfaces_nodup

theorem parent?_eq_some_iff (ho : h.Over ids) :
    h.parent? c = some p ↔ (c, p) ∈ h.parents.outward := by
  constructor
  · intro hp
    exact Arrows.mem_targets.1 (List.mem_of_mem_head? hp)
  · intro hp
    cases ht : h.parents.targets c with
    | nil =>
      have : p ∈ h.parents.targets c := Arrows.mem_targets.2 hp
      rw [ht] at this
      cases this
    | cons q l =>
      have hq : q ∈ h.parents.targets c := by simp [ht]
      have := List.inj_on_of_nodup_map ho.parents_nodup hp (Arrows.mem_targets.1 hq) rfl
      simp_all [parent?]

theorem mem_supertypes (ho : h.Over ids) :
    p ∈ h.supertypes c ↔ (c, p) ∈ h.parents.outward ∨ (c, p) ∈ h.interfaces.outward := by
  rw [supertypes, List.mem_append, Option.mem_toList, ho.parent?_eq_some_iff]
  exact or_congr_right Arrows.mem_targets

theorem mem_of_edge (ho : h.Over ids) (he : Graph.Edge h.supertypes c p) : c ∈ ids ∧ p ∈ ids := by
  rcases ho.mem_supertypes.1 he with he | he
  · exact ho.parents.mem _ he
  · exact ho.interfaces.mem _ he

/-! ### Taking a class out -/

theorem dropClass_eq (ho : h.Over ids) (c : ClassId) :
    h.dropClass c = ⟨h.parents.without [c] [c], h.interfaces.without [c] [c]⟩ := by
  rw [Hierarchy.dropClass, ho.parents.agree.dropVertex, ho.interfaces.agree.dropVertex]

theorem dropClass (ho : h.Over ids) (c : ClassId) : (h.dropClass c).Over (ids.filter (· ∉ [c])) := by
  rw [ho.dropClass_eq]
  refine ⟨ho.parents.without, ho.interfaces.without, ?_, ?_⟩
  · exact ho.parents_nodup.sublist (Arrows.without_sublist.map _)
  · exact ho.interfaces_nodup.sublist Arrows.without_sublist

theorem acyclic_dropClass (ho : h.Over ids) (ha : h.Acyclic) (c : ClassId) :
    (h.dropClass c).Acyclic := by
  intro a hcycle
  refine ha a (TransGen.mono (fun x y hxy => ?_) _ _ hcycle)
  have hxy := (ho.dropClass c).mem_supertypes.1 hxy
  rw [ho.dropClass_eq] at hxy
  refine ho.mem_supertypes.2 (hxy.imp ?_ ?_)
  · exact fun h => (Arrows.mem_without.1 h).1
  · exact fun h => (Arrows.mem_without.1 h).1

/-! ### The search for a cycle -/

theorem cycle?_eq_none_iff (ho : h.Over ids) : h.cycle? ids = none ↔ h.Acyclic :=
  Graph.cycle?_eq_none_iff (fun _ _ he => ho.mem_of_edge he) (Nat.lt_succ_self _)

/-- The class that is reported is one of the listed ones and lies on a cycle. -/
theorem of_cycle?_eq_some (ho : h.Over ids) (hc : h.cycle? ids = some c) :
    c ∈ ids ∧ TransGen (Graph.Edge h.supertypes) c c := by
  have hcycle := Graph.transGen_of_cycle?_eq_some hc
  obtain ⟨b, hb, -⟩ := TransGen.head'_iff.1 hcycle
  exact ⟨(ho.mem_of_edge hb).1, hcycle⟩

end Over
end ClosedWorld.Hierarchy
