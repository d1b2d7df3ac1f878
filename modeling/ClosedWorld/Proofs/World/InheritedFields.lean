import ClosedWorld.Proofs.World.Linked
import ClosedWorld.Proofs.World.Resolution
import ClosedWorld.Proofs.World.Supertypes

/-!
# The fields that a class inherits

A field is looked for in the class, then in the interfaces that the class itself leads to, then in what
the superclasses declare (`FieldScope`). Interfaces of superclasses are not in the scope. So a class finds a
field exactly if one is declared by itself, by an interface that it leads to, by its superclass or above
that, whatever the superclass finds (`field?_of_parent?`). A field that the superclass declares or has from
above is found below it as well, while a constant that it only has from an interface is lost.
-/

namespace ClosedWorld

namespace Hierarchy
open Relation
variable {h : Hierarchy} {c p a : ClassId}

/-- Where fields are looked for from a class. -/
def FieldScope (h : Hierarchy) (c a : ClassId) : Prop :=
  a = c ∨ h.Subinterface c a ∨ h.Superclass c a

theorem Acyclic.superclass_iff_of_parent? (ha : h.Acyclic) (hp : h.parent? c = some p) :
    h.Superclass c a ↔ a = p ∨ h.Superclass p a := by
  rw [← ha.mem_superclasses_iff, ← ha.mem_superclasses_iff, ha.superclasses_of_parent? hp,
    List.mem_cons]

theorem ownSuperinterfaces_of_interfacesOf_nil (hi : h.interfacesOf c = []) :
    h.ownSuperinterfaces c = [] := by
  refine List.eq_nil_iff_forall_not_mem.2 fun i hmem => ?_
  obtain ⟨q, hq, -⟩ := TransGen.head'_iff.1 (mem_ownSuperinterfaces_iff.1 hmem)
  rw [Graph.Edge, hi] at hq
  cases hq

end Hierarchy

namespace Resolver
variable {r : Resolver} {c p : ClassId} {name : MemberName} {type : FieldType}
variable {f : Declared FieldEntry}

theorem field?_eq_none_iff (ha : r.hierarchy.Acyclic) : r.field? c name type = none ↔
    ∀ a, r.hierarchy.FieldScope c a → r.declaredField? name type a = none := by
  rw [field?, List.findSome?_eq_none_iff]
  refine forall_congr' fun a => ?_
  rw [List.mem_append, List.mem_cons, Hierarchy.mem_ownSuperinterfaces_iff, ha.mem_superclasses_iff,
    or_assoc]
  rfl

theorem exists_field?_iff (ha : r.hierarchy.Acyclic) : (∃ g, r.field? c name type = some g) ↔
    ∃ a, r.hierarchy.FieldScope c a ∧ ∃ g, r.declaredField? name type a = some g := by
  simp only [← Option.ne_none_iff_exists', ne_eq, field?_eq_none_iff ha, not_forall, exists_prop]

/-- A class without fields and interfaces finds what its superclasses declare, nearest first. -/
theorem field?_of_bare (ha : r.hierarchy.Acyclic) (hp : r.hierarchy.parent? c = some p)
    (hc : r.declaredField? name type c = none) (hi : r.hierarchy.interfacesOf c = []) :
    r.field? c name type = (p :: r.hierarchy.superclasses p).findSome? (r.declaredField? name type) := by
  rw [field?, Hierarchy.ownSuperinterfaces_of_interfacesOf_nil hi, ha.superclasses_of_parent? hp,
    List.singleton_append, List.findSome?_cons, hc]

/-- What does not come from an interface is what the superclasses declare, nearest first. -/
theorem findSome?_of_field? (h : r.field? p name type = some f)
    (howner : f.owner = p ∨ ∀ i, r.hierarchy.Subinterface p i → r.declaredField? name type i = none) :
    (p :: r.hierarchy.superclasses p).findSome? (r.declaredField? name type) = some f := by
  cases hp : r.declaredField? name type p with
  | some g =>
    rw [field?, List.cons_append, List.findSome?_cons, hp] at h
    rw [List.findSome?_cons, hp]
    exact h
  | none =>
    rcases howner with rfl | hnone
    · rw [declaredField?_of_field? h] at hp
      cases hp
    · have hown : (r.hierarchy.ownSuperinterfaces p).findSome? (r.declaredField? name type) = none :=
        List.findSome?_eq_none_iff.2 fun i hi => hnone i (Hierarchy.mem_ownSuperinterfaces_iff.1 hi)
      rw [field?, List.cons_append, List.findSome?_cons, hp, List.findSome?_append, hown] at h
      rw [List.findSome?_cons, hp]
      exact h

end Resolver

/-! ### Limits -/

namespace World

/-- An interface with a constant, a class with a field, a subclass of it that names the interface, and a
class below that names nothing but its superclass. -/
def limits : List ClassDecl :=
  let limited : ClassName := ⟨"Limited", by decide +kernel⟩
  let vessel : ClassName := ⟨"Vessel", by decide +kernel⟩
  let tank : ClassName := ⟨"Tank", by decide +kernel⟩
  let barrel : ClassName := ⟨"Barrel", by decide +kernel⟩
  [{ ClassHeader.interface limited with
      fields := [⟨⟨"MAX", by decide +kernel⟩, .base .int, .ofList FieldFlag.constant⟩] },
    { name := vessel, super? := some .object, flags := .ofList [.accPublic],
      fields := [⟨⟨"size", by decide +kernel⟩, .base .int, .ofList [.accPublic]⟩] },
    { name := tank, super? := some vessel, interfaces := [limited], flags := .ofList [.accPublic] },
    { name := barrel, super? := some tank, flags := .ofList [.accPublic] }]

def ofLimits : World := (World.empty {}).run (limits.map .register ++ [.link])

theorem reachable_ofLimits : ofLimits.Reachable := ⟨{}, _, rfl⟩

theorem linked_ofLimits : ofLimits.stage ≠ .unlinked := by decide +kernel

end World

/-! ### The results -/

namespace Resolver
variable {w : World} {r : Resolver} {c p : ClassId}

/-- The constant of the tank, which has it from its interface, is not found from the barrel below. -/
theorem constant_not_inherited :
    let w := World.ofLimits
    let r : Resolver := ⟨w, World.linked_ofLimits⟩
    let max : MemberName := ⟨"MAX", by decide +kernel⟩
    (w.Reachable ∧ w.resolver = .ok r ∧ r.hierarchy.parent? ⟨3⟩ = some ⟨2⟩ ∧
      (r.field? ⟨2⟩ max (.base .int)).isSome) ∧ r.field? ⟨3⟩ max (.base .int) = none :=
  ⟨⟨World.reachable_ofLimits, World.resolver_of_stage _, by decide +kernel, by decide +kernel⟩,
    by decide +kernel⟩

/-- What a class finds of a name and a type below its superclass. If the superclass finds a field that is
declared there or above, the class finds one as well. It is the same one if it is declared there or no
interface of the superclass declares one, and the class has neither such a field nor interfaces. Whatever
the superclass finds, the class finds a field exactly if one is declared by itself, by an interface that it
leads to, by the superclass or by a class above that. -/
theorem field?_of_parent? (h : w.Reachable) (hr : w.resolver = .ok r)
    (hp : r.hierarchy.parent? c = some p) (name : MemberName) (type : FieldType) :
    (∀ f, r.field? p name type = some f →
        (f.owner = p ∨ r.hierarchy.Superclass p f.owner → ∃ g, r.field? c name type = some g) ∧
        ((f.owner = p ∨ ∀ i, r.hierarchy.Subinterface p i → r.declaredField? name type i = none) →
          r.declaredField? name type c = none → r.hierarchy.interfacesOf c = [] →
            r.field? c name type = some f)) ∧
      ((∃ g, r.field? c name type = some g) ↔
        ∃ a, (a = c ∨ r.hierarchy.Subinterface c a ∨ a = p ∨ r.hierarchy.Superclass p a) ∧
          ∃ g, r.declaredField? name type a = some g) := by
  obtain rfl := World.world_of_resolver hr
  have ha : r.hierarchy.Acyclic := h.acyclic r.linked
  have hscope : ∀ a, r.hierarchy.FieldScope c a ↔
      (a = c ∨ r.hierarchy.Subinterface c a ∨ a = p ∨ r.hierarchy.Superclass p a) := fun a => by
    rw [Hierarchy.FieldScope, ha.superclass_iff_of_parent? hp]
  have hiff : (∃ g, r.field? c name type = some g) ↔ _ := exists_field?_iff ha
  simp only [hscope] at hiff
  refine ⟨fun f hf => ⟨fun howner => ?_, fun howner hc hi => ?_⟩, hiff⟩
  · exact hiff.2 ⟨f.owner, .inr (.inr howner), f, declaredField?_of_field? hf⟩
  · rw [field?_of_bare ha hp hc hi, findSome?_of_field? hf howner]

/-- The tank has its size from the vessel, and so has the barrel below, which names nothing itself. -/
theorem field?_of_parent?_limits :
    let w := World.ofLimits
    let r : Resolver := ⟨w, World.linked_ofLimits⟩
    let size : MemberName := ⟨"size", by decide +kernel⟩
    let f : Declared FieldEntry := ⟨⟨1⟩, ⟨1⟩, size, .base .int, .ofList [.accPublic]⟩
    (w.Reachable ∧ w.resolver = .ok r ∧ r.hierarchy.parent? ⟨3⟩ = some ⟨2⟩ ∧
      r.field? ⟨2⟩ size (.base .int) = some f ∧ r.hierarchy.Superclass ⟨2⟩ f.owner ∧
      (∀ i, r.hierarchy.Subinterface ⟨2⟩ i → r.declaredField? size (.base .int) i = none) ∧
      r.declaredField? size (.base .int) ⟨3⟩ = none ∧ r.hierarchy.interfacesOf ⟨3⟩ = []) ∧
      (∃ g, r.field? ⟨3⟩ size (.base .int) = some g) ∧ r.field? ⟨3⟩ size (.base .int) = some f ∧
      ((∃ g, r.field? ⟨3⟩ size (.base .int) = some g) ↔
        ∃ a, (a = ⟨3⟩ ∨ r.hierarchy.Subinterface ⟨3⟩ a ∨ a = ⟨2⟩ ∨ r.hierarchy.Superclass ⟨2⟩ a) ∧
          ∃ g, r.declaredField? size (.base .int) a = some g) := by
  intro w r size f
  have hparent : r.hierarchy.parent? ⟨3⟩ = some ⟨2⟩ := by decide +kernel
  have hfound : r.field? ⟨2⟩ size (.base .int) = some f := by decide +kernel
  have hstep : r.hierarchy.parent? ⟨2⟩ = some f.owner := by decide +kernel
  have hup : r.hierarchy.Superclass ⟨2⟩ f.owner := .single hstep
  have hover : ∀ i ∈ r.hierarchy.ownSuperinterfaces ⟨2⟩, r.declaredField? size (.base .int) i = none := by
    decide +kernel
  have hnone : ∀ i, r.hierarchy.Subinterface ⟨2⟩ i → r.declaredField? size (.base .int) i = none :=
    fun i hi => hover i (Hierarchy.mem_ownSuperinterfaces_iff.2 hi)
  have hbare : r.declaredField? size (.base .int) ⟨3⟩ = none ∧ r.hierarchy.interfacesOf ⟨3⟩ = [] := by
    decide +kernel
  obtain ⟨hbelow, hiff⟩ := field?_of_parent? World.reachable_ofLimits (World.resolver_of_stage _) hparent
    size (.base .int)
  obtain ⟨hsome, hsame⟩ := hbelow f hfound
  exact ⟨⟨World.reachable_ofLimits, World.resolver_of_stage _, hparent, hfound, hup, hnone, hbare⟩,
    hsome (.inr hup), hsame (.inr hnone) hbare.1 hbare.2, hiff⟩

end Resolver
end ClosedWorld
