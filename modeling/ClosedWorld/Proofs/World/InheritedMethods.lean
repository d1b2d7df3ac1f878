import ClosedWorld.Proofs.World.Defaults
import ClosedWorld.Proofs.World.Superinterfaces

/-!
# The methods that a class inherits

A call through a class finds what its superclasses declare, nearest first, and a default method only if
they declare nothing (`method?_of_class`). Each of the two searches finds something below a superclass if
it does at the superclass (`inheritedMethod?_of_parent?`, `exists_defaultMethod?_of_parent?`). The default
methods can differ, but not for a class without interfaces of its own (`defaultMethod?_of_bare`).

A call through an interface sees less of the superclasses. What it does see there, a call through the class
finds first (`inheritedMethod?_of_interface`). So the two find different methods only where a superclass has
one that is hidden from the interface (`HiddenAbove`), and the call through it is left with the default
methods (`method?_of_modes`).
-/

namespace ClosedWorld

namespace Hierarchy
open Relation
variable {h : Hierarchy} {c p i : ClassId}

theorem Inherits.of_parent? (hi : h.Inherits p i) (hp : h.parent? c = some p) : h.Inherits c i := by
  obtain ⟨a, hpa, hai⟩ := hi
  exact ⟨a, .head hp hpa, hai⟩

theorem Acyclic.superinterfaces_of_bare (ha : h.Acyclic) (hp : h.parent? c = some p)
    (hi : h.interfacesOf c = []) : h.superinterfaces c = h.superinterfaces p := by
  rw [superinterfaces, superinterfaces, List.flatMap_cons, hi, List.nil_append,
    ha.superclasses_of_parent? hp]

end Hierarchy

namespace Resolver
variable {r : Resolver} {c p a : ClassId} {name : MemberName} {d : MethodDescriptor}
variable {m : Declared MethodEntry} {throughInterface : Bool}

theorem method?_eq_or : r.method? c name d throughInterface = (r.declaredMethod? name d c).or
    ((r.inheritedMethod? c name d throughInterface).or (r.defaultMethod? c name d)) := by
  rw [method?, Option.orElse_eq_orElse, Option.orElse_eq_or, Option.orElse_eq_or]

/-! ### Calls through a class -/

/-- What the class and its superclasses declare, nearest first. -/
def classMethod? (r : Resolver) (c : ClassId) (name : MemberName) (d : MethodDescriptor) :
    Option (Declared MethodEntry) :=
  (c :: r.hierarchy.superclasses c).findSome? (r.declaredMethod? name d)

theorem classMethod?_eq_or : r.classMethod? c name d =
    (r.declaredMethod? name d c).or (r.inheritedMethod? c name d false) := by
  rw [classMethod?, List.findSome?_cons]
  cases r.declaredMethod? name d c <;> rfl

theorem method?_of_class :
    r.method? c name d false = (r.classMethod? c name d).or (r.defaultMethod? c name d) := by
  rw [method?_eq_or, classMethod?_eq_or, Option.or_assoc]

theorem inheritedMethod?_of_parent? (ha : r.hierarchy.Acyclic) (hp : r.hierarchy.parent? c = some p) :
    r.inheritedMethod? c name d false = r.classMethod? p name d := by
  rw [classMethod?, ← ha.superclasses_of_parent? hp]
  rfl

theorem exists_classMethod? (ha : r.hierarchy.Acyclic) (hm : r.declaredMethod? name d a = some m)
    (hca : a = c ∨ r.hierarchy.Superclass c a) : ∃ k, r.classMethod? c name d = some k := by
  refine Option.isSome_iff_exists.1 (List.findSome?_isSome_iff.2 ⟨a, ?_, hm ▸ rfl⟩)
  rwa [List.mem_cons, ha.mem_superclasses_iff]

/-- A class has every candidate for a default method that its superclass has. -/
theorem inheritable_of_parent? (hp : r.hierarchy.parent? c = some p)
    (hm : m ∈ r.inheritable p name d) : m ∈ r.inheritable c name d :=
  ⟨hm.1.of_parent? hp, hm.2⟩

theorem defaultMethod?_of_bare (ha : r.hierarchy.Acyclic) (hp : r.hierarchy.parent? c = some p)
    (hi : r.hierarchy.interfacesOf c = []) : r.defaultMethod? c name d = r.defaultMethod? p name d := by
  rw [defaultMethod?, defaultMethod?, defaultCandidates, ha.superinterfaces_of_bare hp hi]
  rfl

theorem exists_defaultMethod?_of_parent? (ha : r.hierarchy.Acyclic)
    (hp : r.hierarchy.parent? c = some p) (hm : r.defaultMethod? p name d = some m) :
    ∃ k, r.defaultMethod? c name d = some k := by
  have hinherit := (mem_defaultCandidates_iff ha).1 (mem_of_defaultMethod? hm)
  exact exists_defaultMethod? ha (inheritable_of_parent? hp hinherit)

/-! ### Calls through an interface -/

/-- A method of a superclass that a call through an interface does not see. -/
structure HiddenAbove (r : Resolver) (c : ClassId) (name : MemberName) (d : MethodDescriptor)
    (m : Declared MethodEntry) : Prop where
  above : r.hierarchy.Superclass c m.owner
  declared : r.declaredMethod? name d m.owner = some m
  unseen : r.hierarchy.parent? c ≠ some m.owner ∨
    m.member.decl.flags.has .accPublic = false ∨ m.member.decl.flags.has .accStatic = true

theorem inheritedMethod?_interface_iff : r.inheritedMethod? c name d true = some m ↔
    r.hierarchy.parent? c = some m.owner ∧ r.declaredMethod? name d m.owner = some m ∧
      m.isPublicInstance := by
  rw [inheritedMethod?, if_pos rfl, Option.filter_eq_some_iff, Option.bind_eq_some_iff]
  constructor
  · rintro ⟨⟨p, hp, hm⟩, hpublic⟩
    obtain rfl := owner_of_declaredMethod? hm
    exact ⟨hp, hm, hpublic⟩
  · rintro ⟨hp, hm, hpublic⟩
    exact ⟨⟨m.owner, hp, hm⟩, hpublic⟩

theorem inheritedMethod?_of_interface (ha : r.hierarchy.Acyclic)
    (h : r.inheritedMethod? c name d true = some m) : r.inheritedMethod? c name d false = some m := by
  obtain ⟨hp, hm, -⟩ := inheritedMethod?_interface_iff.1 h
  rw [inheritedMethod?_of_parent? ha hp, classMethod?_eq_or, hm]
  rfl

theorem hiddenAbove_of_inheritedMethod? (ha : r.hierarchy.Acyclic)
    (h : r.inheritedMethod? c name d false = some m) (hnone : r.inheritedMethod? c name d true = none) :
    r.HiddenAbove c name d m where
  above := by
    obtain ⟨a, hmem, hm⟩ := List.exists_of_findSome?_eq_some h
    rw [owner_of_declaredMethod? hm]
    exact ha.mem_superclasses_iff.1 hmem
  declared := declaredMethod?_of_inheritedMethod? h
  unseen := by
    by_contra hseen
    obtain ⟨hp, hpublic, hstatic⟩ : r.hierarchy.parent? c = some m.owner ∧
        m.member.decl.flags.has .accPublic = true ∧ m.member.decl.flags.has .accStatic = false := by
      simpa only [not_or, not_not, Bool.not_eq_false, Bool.not_eq_true] using hseen
    have hpublicInstance : m.isPublicInstance := by simp [Declared.isPublicInstance, hpublic, hstatic]
    have hsome := inheritedMethod?_interface_iff.2
      ⟨hp, declaredMethod?_of_inheritedMethod? h, hpublicInstance⟩
    rw [hnone] at hsome
    cases hsome

/-- Two calls that do not find the same method part where the class looks for what it inherits. -/
theorem method?_of_modes (ha : r.hierarchy.Acyclic)
    (hne : r.method? c name d false ≠ r.method? c name d true) :
    (∃ m, r.method? c name d false = some m ∧ r.HiddenAbove c name d m) ∧
      r.method? c name d true = r.defaultMethod? c name d := by
  rw [method?_eq_or, method?_eq_or] at hne ⊢
  cases hc : r.declaredMethod? name d c with
  | some k => simp [hc] at hne
  | none =>
    simp only [hc, Option.none_or] at hne ⊢
    cases htrue : r.inheritedMethod? c name d true with
    | some k => simp [htrue, inheritedMethod?_of_interface ha htrue] at hne
    | none =>
      cases hfalse : r.inheritedMethod? c name d false with
      | none => simp [htrue, hfalse] at hne
      | some m => exact ⟨⟨m, rfl, hiddenAbove_of_inheritedMethod? ha hfalse htrue⟩, rfl⟩

end Resolver

/-! ### The results -/

namespace Resolver
variable {w : World} {r : Resolver} {c p : ClassId} {name : MemberName} {d : MethodDescriptor}
variable {m : Declared MethodEntry}

/-- A class that is called finds a method if its superclass finds one. It is the same one if the class does
not declare it anew, and if it is declared by the superclass or further up or else the class adds no
interfaces. -/
theorem method?_of_parent? (h : w.Reachable) (hr : w.resolver = .ok r)
    (hp : r.hierarchy.parent? c = some p) (hm : r.method? p name d false = some m) :
    (∃ k, r.method? c name d false = some k) ∧
      (r.declaredMethod? name d c = none →
        (m.owner = p ∨ r.hierarchy.Superclass p m.owner) ∨ r.hierarchy.interfacesOf c = [] →
          r.method? c name d false = some m) := by
  obtain rfl := World.world_of_resolver hr
  have ha : r.hierarchy.Acyclic := h.acyclic r.linked
  have hsplit := method?_of_class.symm.trans hm
  constructor
  · rw [method?_eq_or, inheritedMethod?_of_parent? ha hp, ← Option.isSome_iff_exists]
    rcases Option.or_eq_some_iff.1 hsplit with hclass | ⟨-, hdefault⟩
    · simp [hclass]
    · obtain ⟨k, hk⟩ := exists_defaultMethod?_of_parent? ha hp hdefault
      simp [hk]
  · intro hc howner
    rw [method?_eq_or, hc, Option.none_or, inheritedMethod?_of_parent? ha hp]
    rcases howner with howner | hi
    · obtain ⟨k, hk⟩ := exists_classMethod? ha (declaredMethod?_of_method? hm) howner
      rw [hk] at hsplit ⊢
      exact hsplit
    · rwa [defaultMethod?_of_bare ha hp hi]

/-- The mandolin is portable anew, and still has its playing from the instrument. -/
theorem method?_of_parent?_instruments :
    let w := World.ofInstruments
    let r : Resolver := ⟨w, World.linked_ofInstruments⟩
    let m : Declared MethodEntry := ⟨⟨3⟩, ⟨1⟩, World.playMethod⟩
    (w.Reachable ∧ w.resolver = .ok r ∧ r.hierarchy.parent? ⟨5⟩ = some ⟨4⟩ ∧
      r.method? ⟨4⟩ World.playName World.playType false = some m) ∧
      (∃ k, r.method? ⟨5⟩ World.playName World.playType false = some k) ∧
      (r.declaredMethod? World.playName World.playType ⟨5⟩ = none →
        (m.owner = ⟨4⟩ ∨ r.hierarchy.Superclass ⟨4⟩ m.owner) ∨ r.hierarchy.interfacesOf ⟨5⟩ = [] →
          r.method? ⟨5⟩ World.playName World.playType false = some m) :=
  ⟨⟨World.reachable_ofInstruments, World.resolver_of_stage _, by decide +kernel, by decide +kernel⟩,
    method?_of_parent? World.reachable_ofInstruments (World.resolver_of_stage _) (by decide +kernel)
      (by decide +kernel)⟩

/-- What a call through an interface finds, one through the class finds as well, unless a superclass has a
method that is hidden from the interface. Only a default method is found then. -/
theorem method?_through_interface (h : w.Reachable) (hr : w.resolver = .ok r) (c : ClassId)
    (name : MemberName) (d : MethodDescriptor) :
    let v := r.method? c name d false
    let i := r.method? c name d true
    (i.isSome → v.isSome) ∧
      (v ≠ i → (∃ m, v = some m ∧ r.HiddenAbove c name d m) ∧ i = r.defaultMethod? c name d) ∧
      ((∀ a, r.hierarchy.Superclass c a → r.declaredMethod? name d a = none) → v = i) := by
  intro v i
  obtain rfl := World.world_of_resolver hr
  have ha : r.hierarchy.Acyclic := h.acyclic r.linked
  refine ⟨fun hi => ?_, method?_of_modes ha, fun hnone => ?_⟩
  · by_cases hne : v = i
    · rwa [hne]
    · obtain ⟨⟨m, hv, -⟩, -⟩ := method?_of_modes ha hne
      exact Option.isSome_iff_exists.2 ⟨m, hv⟩
  · by_contra hne
    obtain ⟨⟨m, -, hm⟩, -⟩ := method?_of_modes ha hne
    have hdeclared := hm.declared
    rw [hnone m.owner hm.above] at hdeclared
    cases hdeclared

/-- The playing of the instrument is too far up for the mandolin as something playable. -/
theorem method?_through_interface_instruments :
    let w := World.ofInstruments
    let r : Resolver := ⟨w, World.linked_ofInstruments⟩
    let v := r.method? ⟨5⟩ World.playName World.playType false
    let i := r.method? ⟨5⟩ World.playName World.playType true
    (w.Reachable ∧ w.resolver = .ok r ∧ v = some ⟨⟨3⟩, ⟨1⟩, World.playMethod⟩ ∧
      i = some ⟨⟨0⟩, ⟨0⟩, World.playMethod⟩) ∧
      (i.isSome → v.isSome) ∧
      (v ≠ i → (∃ m, v = some m ∧ r.HiddenAbove ⟨5⟩ World.playName World.playType m) ∧
        i = r.defaultMethod? ⟨5⟩ World.playName World.playType) ∧
      ((∀ a, r.hierarchy.Superclass ⟨5⟩ a →
        r.declaredMethod? World.playName World.playType a = none) → v = i) :=
  ⟨⟨World.reachable_ofInstruments, World.resolver_of_stage _, by decide +kernel, by decide +kernel⟩,
    method?_through_interface World.reachable_ofInstruments (World.resolver_of_stage _) ⟨5⟩
      World.playName World.playType⟩

end Resolver
end ClosedWorld
