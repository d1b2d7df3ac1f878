import ClosedWorld.Proofs.World.Linked
import ClosedWorld.Proofs.World.Supertypes

/-!
# Subtypes

A value of one class can be used where another is due if superclasses lead from the one class to some class
and interfaces from there to the other (`Conforms`, `Acyclic.isAssignable_iff`). In a hierarchy without
cycles all edges together order the classes, and the test falls short of that order: it is reflexive and
antisymmetric, but no superclass is followed behind an interface, so a class need not conform to the
superclass of an interface that it conforms to (`Conforms.trans`).
-/

namespace ClosedWorld

namespace Hierarchy
open Relation
variable {h : Hierarchy} {a b c : ClassId}

/-- Superclasses and then interfaces lead from one class to the other. -/
def Conforms (h : Hierarchy) (a c : ClassId) : Prop :=
  ∃ b, ReflTransGen (Graph.Step h.parent?) a b ∧ ReflTransGen (Graph.Edge h.interfacesOf) b c

/-! ### The order -/

namespace Conforms

theorem refl (h : Hierarchy) (a : ClassId) : h.Conforms a a := ⟨a, .refl, .refl⟩

theorem edges (hac : h.Conforms a c) : ReflTransGen (Graph.Edge h.supertypes) a c := by
  obtain ⟨b, hab, hbc⟩ := hac
  have hup : ReflTransGen (Graph.Edge h.supertypes) a b :=
    ReflTransGen.mono (fun _ _ => edge_of_step) _ _ hab
  have hover : ReflTransGen (Graph.Edge h.supertypes) b c :=
    ReflTransGen.mono (fun _ _ => edge_of_interface) _ _ hbc
  exact hup.trans hover

theorem antisymm (ha : h.Acyclic) (hab : h.Conforms a b) (hba : h.Conforms b a) : a = b := by
  rcases reflTransGen_iff_eq_or_transGen.1 hab.edges with heq | hlt
  · exact heq.symm
  · exact absurd (hlt.trans_left hba.edges) (ha a)

/-- No superclass comes behind an interface if the first way has no interfaces or the second no
superclasses. -/
theorem trans (hab : h.Conforms a b) (hbc : h.Conforms b c)
    (hway : h.Superclass a b ∨ h.Subinterface b c) : h.Conforms a c := by
  rcases hway with hup | hover
  · obtain ⟨x, hbx, hxc⟩ := hbc
    exact ⟨x, hup.to_reflTransGen.trans hbx, hxc⟩
  · obtain ⟨x, hax, hxb⟩ := hab
    exact ⟨x, hax, hxb.trans hover.to_reflTransGen⟩

end Conforms

theorem Acyclic.isAssignable_iff (ha : h.Acyclic) : h.isAssignable a c = true ↔ h.Conforms a c := by
  have hsplit : h.isAssignable a c = true ↔ a = c ∨ h.Superclass a c ∨ h.Inherits a c := by
    rw [isAssignable, Bool.or_eq_true, Bool.or_eq_true, beq_iff_eq, List.contains_iff_mem,
      List.contains_iff_mem, ha.mem_superclasses_iff, ha.mem_superinterfaces_iff, or_assoc]
  rw [hsplit]
  constructor
  · rintro (rfl | hac | ⟨b, hab, hbc⟩)
    · exact .refl h a
    · exact ⟨c, hac.to_reflTransGen, .refl⟩
    · exact ⟨b, hab, hbc.to_reflTransGen⟩
  · rintro ⟨b, hab, hbc⟩
    rcases reflTransGen_iff_eq_or_transGen.1 hbc with rfl | hbc
    · exact (reflTransGen_iff_eq_or_transGen.1 hab).imp Eq.symm .inl
    · exact .inr (.inr ⟨b, hab, hbc⟩)

/-- How classes are ordered by the test whether one can be used where the other is due. -/
structure Subtyping (h : Hierarchy) : Prop where
  refl : ∀ a, h.isAssignable a a = true
  antisymm : ∀ a b, h.isAssignable a b = true → h.isAssignable b a = true → a = b
  /-- Unless interfaces lead to the class in the middle and its superclasses onward. -/
  trans : ∀ a b c, h.isAssignable a b = true → h.isAssignable b c = true →
    a = b ∨ h.Superclass a b ∨ b = c ∨ h.Subinterface b c → h.isAssignable a c = true
  /-- In any case just the superclasses of the first class and the interfaces above them count. -/
  iff_conforms : ∀ a c, h.isAssignable a c = true ↔ h.Conforms a c

end Hierarchy

/-! ### A disc without its superclass -/

namespace World

/-- The root class, an interface under it, and a class that names the interface and a superclass that is
not registered. -/
def outlines : List ClassDecl :=
  let figure : ClassName := ⟨"Figure", by decide +kernel⟩
  let disc : ClassName := ⟨"Disc", by decide +kernel⟩
  let ellipse : ClassName := ⟨"Ellipse", by decide +kernel⟩
  [{ name := .object, super? := none, flags := .ofList [.accPublic] },
    { toClassHeader := .interface figure },
    { name := disc, super? := some ellipse, interfaces := [figure], flags := .ofList [.accPublic] }]

def ofOutlines : World := (World.empty {}).run (outlines.map .register ++ [.link])

theorem reachable_ofOutlines : ofOutlines.Reachable := ⟨{}, _, rfl⟩

theorem linked_ofOutlines : ofOutlines.stage ≠ .unlinked := by decide +kernel

end World

/-! ### The results -/

namespace Resolver
variable {w : World} {r : Resolver}

/-- A disc is a figure and a figure is an object, but a disc whose superclass is not known is no
object. -/
theorem isAssignable_not_transitive :
    let w := World.ofOutlines
    let r : Resolver := ⟨w, World.linked_ofOutlines⟩
    (w.Reachable ∧ w.resolver = .ok r ∧ w.ids = [⟨0⟩, ⟨1⟩, ⟨2⟩] ∧
      r.hierarchy.isAssignable ⟨2⟩ ⟨1⟩ = true ∧ r.hierarchy.isAssignable ⟨1⟩ ⟨0⟩ = true) ∧
      r.hierarchy.isAssignable ⟨2⟩ ⟨0⟩ = false :=
  ⟨⟨World.reachable_ofOutlines, World.resolver_of_stage _, by decide +kernel, by decide +kernel,
    by decide +kernel⟩, by decide +kernel⟩

/-- The test is reflexive, antisymmetric, and transitive up to the superclasses of interfaces. -/
theorem isAssignable_order (h : w.Reachable) (hr : w.resolver = .ok r) : r.hierarchy.Subtyping := by
  obtain rfl := World.world_of_resolver hr
  have ha : r.hierarchy.Acyclic := h.acyclic r.linked
  refine ⟨fun a => ?_, fun a b hab hba => ?_, fun a b c hab hbc hway => ?_, fun a c =>
    ha.isAssignable_iff⟩
  · exact ha.isAssignable_iff.2 (.refl _ a)
  · exact (ha.isAssignable_iff.1 hab).antisymm ha (ha.isAssignable_iff.1 hba)
  · rcases hway with rfl | hup | rfl | hover
    · exact hbc
    · exact ha.isAssignable_iff.2
        ((ha.isAssignable_iff.1 hab).trans (ha.isAssignable_iff.1 hbc) (.inl hup))
    · exact hab
    · exact ha.isAssignable_iff.2
        ((ha.isAssignable_iff.1 hab).trans (ha.isAssignable_iff.1 hbc) (.inr hover))

theorem isAssignable_order_outlines :
    let w := World.ofOutlines
    let r : Resolver := ⟨w, World.linked_ofOutlines⟩
    (w.Reachable ∧ w.resolver = .ok r) ∧ r.hierarchy.Subtyping :=
  ⟨⟨World.reachable_ofOutlines, World.resolver_of_stage _⟩,
    isAssignable_order World.reachable_ofOutlines (World.resolver_of_stage _)⟩

end Resolver
end ClosedWorld
