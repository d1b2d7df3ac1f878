import ClosedWorld.Proofs.Graph.Reach
import ClosedWorld.Proofs.World.Hierarchy

/-!
# Walks up a hierarchy

The walks to superclasses and superinterfaces have as many steps as there are edges. In a hierarchy
without cycles that is enough: they list what the edges lead to and nothing else
(`mem_superclasses_iff`, `mem_superinterfaces_iff`, `isSubinterface_iff`).
-/

namespace ClosedWorld.Hierarchy
open Relation

/-- One class is a proper superclass of the other. -/
def Superclass (h : Hierarchy) (c p : ClassId) : Prop := TransGen (Graph.Step h.parent?) c p

/-- One class or interface leads to the other by the interfaces that are named. -/
def Subinterface (h : Hierarchy) (sub sup : ClassId) : Prop :=
  TransGen (Graph.Edge h.interfacesOf) sub sup

/-- The interface is above the class or above one of its superclasses. -/
def Inherits (h : Hierarchy) (c i : ClassId) : Prop :=
  ∃ a, ReflTransGen (Graph.Step h.parent?) c a ∧ h.Subinterface a i

variable {h : Hierarchy} {a b c i p : ClassId}

theorem mem_parents_of_step (hab : Graph.Step h.parent? a b) : (a, b) ∈ h.parents.outward :=
  Arrows.mem_targets.1 (List.mem_of_mem_head? hab)

theorem mem_interfaces_of_edge (hab : Graph.Edge h.interfacesOf a b) :
    (a, b) ∈ h.interfaces.outward :=
  Arrows.mem_targets.1 hab

theorem edge_of_step (hab : Graph.Step h.parent? a b) : Graph.Edge h.supertypes a b :=
  List.mem_append_left _ (Option.mem_toList.2 hab)

theorem edge_of_interface (hab : Graph.Edge h.interfacesOf a b) : Graph.Edge h.supertypes a b :=
  List.mem_append_right _ hab

namespace Acyclic

theorem not_superclass_self (ha : h.Acyclic) (c : ClassId) : ¬ h.Superclass c c :=
  fun hc => ha c (TransGen.mono (fun _ _ => edge_of_step) _ _ hc)

theorem not_subinterface_self (ha : h.Acyclic) (c : ClassId) : ¬ h.Subinterface c c :=
  fun hc => ha c (TransGen.mono (fun _ _ => edge_of_interface) _ _ hc)

theorem mem_superclasses_iff (ha : h.Acyclic) : p ∈ h.superclasses c ↔ h.Superclass c p := by
  -- no class has two superclasses, so there are at most as many classes with one as edges
  have hv : ∀ a b, Graph.Step h.parent? a b → a ∈ h.parents.outward.map (·.1) :=
    fun a b hab => List.mem_map_of_mem (mem_parents_of_step hab)
  exact Graph.mem_chain_iff ha.not_superclass_self hv (List.length_map _).le

/-- The superclasses of a class are its own superclass and what is above that. -/
theorem superclasses_of_parent? (ha : h.Acyclic) (hp : h.parent? c = some p) :
    h.superclasses c = p :: h.superclasses p := by
  have hstep : Graph.Step h.parent? c p := hp
  have hv : ∀ a b, Graph.Step h.parent? a b → a ∈ h.parents.outward.map (·.1) :=
    fun a b hab => List.mem_map_of_mem (mem_parents_of_step hab)
  unfold superclasses
  cases hn : h.parents.outward.length with
  | zero => exact absurd (List.length_pos_of_mem (mem_parents_of_step hstep)) (by omega)
  | succ n =>
    rw [Graph.chain_succ_of_step hstep]
    have hfuel : Graph.Fuelled (h.parents.outward.map (·.1)) [c] (n + 1) :=
      ⟨List.nodup_singleton c, List.cons_subset.2 ⟨hv c p hstep, List.nil_subset _⟩, by simp [hn]⟩
    refine congrArg (p :: ·) (Graph.chain_succ ha.not_superclass_self hv hfuel fun q hq => ?_).symm
    rw [List.mem_singleton.1 hq]
    exact .single hstep

end Acyclic

/-- All that can join the queue stands at the end of an edge, so there is fuel for it. -/
theorem mem_interfacesFrom_iff {queue : List ClassId}
    (hq : ∀ q ∈ queue, ∃ a, Graph.Edge h.interfacesOf a q) :
    i ∈ h.interfacesFrom queue ↔ ∃ q ∈ queue, ReflTransGen (Graph.Edge h.interfacesOf) q i := by
  have hv : ∀ a b, Graph.Edge h.interfacesOf a b → b ∈ h.interfaces.outward.map (·.2) :=
    fun a b hab => List.mem_map_of_mem (mem_interfaces_of_edge hab)
  have hqv : queue ⊆ h.interfaces.outward.map (·.2) := fun q hqmem => by
    obtain ⟨a, haq⟩ := hq q hqmem
    exact hv a q haq
  exact Graph.mem_breadthFirst_iff hv hqv (List.length_map _).le

theorem mem_ownSuperinterfaces_iff : i ∈ h.ownSuperinterfaces c ↔ h.Subinterface c i := by
  rw [ownSuperinterfaces, mem_interfacesFrom_iff fun q hq => ⟨c, hq⟩, Subinterface,
    TransGen.head'_iff]
  rfl

theorem Acyclic.mem_cons_superclasses_iff (ha : h.Acyclic) :
    a ∈ c :: h.superclasses c ↔ ReflTransGen (Graph.Step h.parent?) c a := by
  rw [List.mem_cons, ha.mem_superclasses_iff, reflTransGen_iff_eq_or_transGen]
  rfl

/-- What a class and its superclasses name as interfaces. -/
theorem Acyclic.mem_named_iff (ha : h.Acyclic) :
    i ∈ (c :: h.superclasses c).flatMap h.interfacesOf ↔
      ∃ a, ReflTransGen (Graph.Step h.parent?) c a ∧ Graph.Edge h.interfacesOf a i := by
  rw [List.mem_flatMap]
  exact exists_congr fun a => and_congr_left fun _ => ha.mem_cons_superclasses_iff

theorem Acyclic.mem_superinterfaces_iff (ha : h.Acyclic) :
    i ∈ h.superinterfaces c ↔ h.Inherits c i := by
  have hq : ∀ q ∈ (c :: h.superclasses c).flatMap h.interfacesOf,
      ∃ a, Graph.Edge h.interfacesOf a q := fun q hq => by
    obtain ⟨a, -, haq⟩ := ha.mem_named_iff.1 hq
    exact ⟨a, haq⟩
  rw [superinterfaces, mem_interfacesFrom_iff hq]
  constructor
  · rintro ⟨q, hqmem, hqi⟩
    obtain ⟨a, hca, haq⟩ := ha.mem_named_iff.1 hqmem
    exact ⟨a, hca, TransGen.head' haq hqi⟩
  · rintro ⟨a, hca, hai⟩
    obtain ⟨q, haq, hqi⟩ := TransGen.head'_iff.1 hai
    exact ⟨q, ha.mem_named_iff.2 ⟨a, hca, haq⟩, hqi⟩

theorem nodup_superinterfaces (h : Hierarchy) (c : ClassId) : (h.superinterfaces c).Nodup :=
  Graph.nodup_breadthFirst _ _ _ _

theorem Acyclic.isSubinterface_iff (ha : h.Acyclic) :
    h.isSubinterface a b = true ↔ h.Subinterface a b := by
  rw [isSubinterface, Bool.and_eq_true, List.contains_iff_mem, mem_ownSuperinterfaces_iff, bne_iff_ne]
  refine ⟨And.right, fun hab => ⟨?_, hab⟩⟩
  rintro rfl
  exact ha.not_subinterface_self a hab

end ClosedWorld.Hierarchy
