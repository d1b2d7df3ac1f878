import ClosedWorld.Proofs.Graph.Renaming
import ClosedWorld.Proofs.World.Hierarchy
import ClosedWorld.World.Resolver

/-!
# Hierarchies that follow each other

Linking and resolving see of a class what stands above it and what it declares. One hierarchy follows
another if above each class stand the same classes under other names, in the same order
(`Hierarchy.Follows`), and one resolver follows another if the declarations are the same as well
(`Resolver.Follows`). Then every walk visits the same classes, and every search up the hierarchy meets
the same candidates. How the names are ordered matters only for the choice among default methods that are
left (`Resolver.ChoiceKept`). The other names are those of a `Relabeling`, which keeps the declarations.
-/

namespace ClosedWorld
open Relation

/-! ### Hierarchies -/

namespace Hierarchy
variable {f : ClassId → ClassId} {h h' : Hierarchy}

structure Follows (f : ClassId → ClassId) (h h' : Hierarchy) : Prop where
  injective : Function.Injective f
  parent? : ∀ c, h'.parent? (f c) = (h.parent? c).map f
  interfacesOf : ∀ c, h'.interfacesOf (f c) = (h.interfacesOf c).map f
  parents_length : h'.parents.outward.length = h.parents.outward.length
  interfaces_length : h'.interfaces.outward.length = h.interfaces.outward.length

namespace Follows
variable (hf : Follows f h h')
include hf

theorem supertypes (c : ClassId) : h'.supertypes (f c) = (h.supertypes c).map f := by
  rw [Hierarchy.supertypes, hf.parent?, hf.interfacesOf, Hierarchy.supertypes, List.map_append]
  cases h.parent? c <;> rfl

theorem superclasses (c : ClassId) : h'.superclasses (f c) = (h.superclasses c).map f := by
  rw [Hierarchy.superclasses, hf.parents_length]
  exact Graph.chain_map hf.parent? _ _

theorem interfacesFrom (queue : List ClassId) :
    h'.interfacesFrom (queue.map f) = (h.interfacesFrom queue).map f := by
  rw [Hierarchy.interfacesFrom, hf.interfaces_length]
  exact Graph.breadthFirst_map hf.injective hf.interfacesOf _ [] queue

theorem ownSuperinterfaces (c : ClassId) : h'.ownSuperinterfaces (f c) = (h.ownSuperinterfaces c).map f := by
  rw [Hierarchy.ownSuperinterfaces, hf.interfacesOf, hf.interfacesFrom]
  rfl

theorem superinterfaces (c : ClassId) : h'.superinterfaces (f c) = (h.superinterfaces c).map f := by
  have hqueue : (f c :: (h.superclasses c).map f).flatMap h'.interfacesOf =
      ((c :: h.superclasses c).flatMap h.interfacesOf).map f := by
    rw [← List.map_cons, List.flatMap_map, List.map_flatMap]
    exact List.flatMap_congr fun a _ => hf.interfacesOf a
  rw [Hierarchy.superinterfaces, hf.superclasses, hqueue, hf.interfacesFrom]
  rfl

theorem isSubinterface (sub sup : ClassId) : h'.isSubinterface (f sub) (f sup) = h.isSubinterface sub sup := by
  rw [Hierarchy.isSubinterface, hf.ownSuperinterfaces, contains_map_of_injective hf.injective,
    Hierarchy.isSubinterface, bne, bne, hf.injective.beq_eq]

theorem isAssignable (sub sup : ClassId) : h'.isAssignable (f sub) (f sup) = h.isAssignable sub sup := by
  rw [Hierarchy.isAssignable, hf.superclasses, hf.superinterfaces,
    contains_map_of_injective hf.injective, contains_map_of_injective hf.injective,
    Hierarchy.isAssignable, hf.injective.beq_eq]

/-- A cycle has a cycle of renamed classes above it. -/
theorem acyclic (ha : h'.Acyclic) : h.Acyclic := fun c hc =>
  ha (f c) (hc.lift f fun a b hab => by
    show f b ∈ h'.supertypes (f a)
    rw [hf.supertypes]
    exact List.mem_map_of_mem hab)

end Follows
end Hierarchy

namespace World
variable {w w' : World} {f : ClassId → ClassId}
  (hlookup : ∀ name, w'.lookup? name = (w.lookup? name).map f) (c : ClassEntry)
include hlookup

/-- What a class names is found under the other names. -/
theorem super?_of_lookup? : c.super?.bind w'.lookup? = (c.super?.bind w.lookup?).map f := by
  cases c.super? with
  | none => rfl
  | some name => exact hlookup name

theorem interfaces_of_lookup? (hf : Function.Injective f) :
    (c.interfaces.filterMap w'.lookup?).eraseDups =
      ((c.interfaces.filterMap w.lookup?).eraseDups).map f := by
  have hnames : c.interfaces.filterMap w'.lookup? = (c.interfaces.filterMap w.lookup?).map f := by
    rw [List.map_filterMap]
    exact List.filterMap_congr fun name _ => hlookup name
  rw [hnames, eraseDups_map_of_injective hf]

end World

/-! ### Resolvers -/

/-- A member that was found, under other names. -/
def Declared.rename {α : Type} (f : ClassId → ClassId) (g : α → α) (t : Declared α) : Declared α :=
  ⟨f t.owner, g t.member⟩

namespace Resolver
variable {f : ClassId → ClassId} {g : MethodEntry → MethodEntry} {k : FieldEntry → FieldEntry}
  {r r' : Resolver}

structure Follows (f : ClassId → ClassId) (g : MethodEntry → MethodEntry) (k : FieldEntry → FieldEntry)
    (r r' : Resolver) : Prop where
  hierarchy : r.hierarchy.Follows f r'.hierarchy
  decl : ∀ m, (g m).decl = m.decl
  declaredMethod? : ∀ name d c,
    r'.declaredMethod? name d (f c) = (r.declaredMethod? name d c).map (Declared.rename f g)
  declaredField? : ∀ name t c,
    r'.declaredField? name t (f c) = (r.declaredField? name t c).map (Declared.rename f k)

/-- Of the default methods that are left, the one that is chosen is chosen under the other names too. -/
def ChoiceKept (r : Resolver) (f : ClassId → ClassId) (g : MethodEntry → MethodEntry) (c : ClassId)
    (name : MemberName) (d : MethodDescriptor) : Prop :=
  let left := r.survivors (preferConcrete (r.defaultCandidates c name d))
  (left.map (Declared.rename f g)).minOn? (·.owner.val) =
    (left.minOn? (·.owner.val)).map (Declared.rename f g)

namespace Follows
variable (hf : Follows f g k r r')
include hf

theorem field? (c : ClassId) (name : MemberName) (t : FieldType) :
    r'.field? (f c) name t = (r.field? c name t).map (Declared.rename f k) := by
  have hscope : f c :: r'.hierarchy.ownSuperinterfaces (f c) ++ r'.hierarchy.superclasses (f c) =
      (c :: r.hierarchy.ownSuperinterfaces c ++ r.hierarchy.superclasses c).map f := by
    rw [hf.hierarchy.ownSuperinterfaces, hf.hierarchy.superclasses, List.map_append, List.map_cons]
  rw [Resolver.field?, hscope, List.findSome?_map, Resolver.field?, List.map_findSome?]
  exact congrArg (List.findSome? · _) (funext fun i => hf.declaredField? name t i)

/-- Tests of the declaration of a method have the same outcome. -/
theorem isConcrete (m : Declared MethodEntry) : (m.rename f g).isConcrete = m.isConcrete :=
  congrArg (fun d : MethodDecl => !d.flags.has .accAbstract) (hf.decl m.member)

theorem isPublicInstance (m : Declared MethodEntry) :
    (m.rename f g).isPublicInstance = m.isPublicInstance :=
  congrArg (fun d : MethodDecl => d.flags.has .accPublic && !d.flags.has .accStatic) (hf.decl m.member)

theorem isHeritable (m : Declared MethodEntry) : (m.rename f g).isHeritable = m.isHeritable :=
  congrArg (fun d : MethodDecl => d.flags.isHeritable) (hf.decl m.member)

theorem preferConcrete (l : List (Declared MethodEntry)) :
    Resolver.preferConcrete (l.map (Declared.rename f g)) =
      (Resolver.preferConcrete l).map (Declared.rename f g) := by
  have hconcrete : Declared.isConcrete ∘ Declared.rename f g = Declared.isConcrete :=
    funext hf.isConcrete
  rw [Resolver.preferConcrete, Resolver.preferConcrete, List.any_map, List.filter_map, hconcrete]
  split <;> rfl

theorem defaultCandidates (c : ClassId) (name : MemberName) (d : MethodDescriptor) :
    r'.defaultCandidates (f c) name d = (r.defaultCandidates c name d).map (Declared.rename f g) := by
  have hlist : (r'.hierarchy.superinterfaces (f c)).filterMap (r'.declaredMethod? name d) =
      ((r.hierarchy.superinterfaces c).filterMap (r.declaredMethod? name d)).map
        (Declared.rename f g) := by
    rw [hf.hierarchy.superinterfaces, List.filterMap_map, List.map_filterMap]
    exact List.filterMap_congr fun i _ => hf.declaredMethod? name d i
  have hheritable : Declared.isHeritable ∘ Declared.rename f g = Declared.isHeritable :=
    funext hf.isHeritable
  rw [Resolver.defaultCandidates, hlist, List.filter_map, hheritable]
  rfl

theorem mostSpecific (l : List (Declared MethodEntry)) :
    r'.mostSpecific (l.map (Declared.rename f g)) = (r.mostSpecific l).map (Declared.rename f g) := by
  rw [Resolver.mostSpecific, List.filter_map, Resolver.mostSpecific]
  refine congrArg (List.map _) (List.filter_congr fun m _ => ?_)
  simp only [Function.comp_apply, List.any_map]
  exact congrArg (fun p => !l.any p) (funext fun n => hf.hierarchy.isSubinterface n.owner m.owner)

theorem inheritedMethod? (c : ClassId) (name : MemberName) (d : MethodDescriptor)
    (throughInterface : Bool) :
    r'.inheritedMethod? (f c) name d throughInterface =
      (r.inheritedMethod? c name d throughInterface).map (Declared.rename f g) := by
  have hpublic : Declared.isPublicInstance ∘ Declared.rename f g = Declared.isPublicInstance :=
    funext hf.isPublicInstance
  rw [Resolver.inheritedMethod?, hf.hierarchy.parent?, hf.hierarchy.superclasses,
    Resolver.inheritedMethod?]
  split
  · cases r.hierarchy.parent? c with
    | none => rfl
    | some p =>
      rw [Option.map_some, Option.bind_some, Option.bind_some, hf.declaredMethod?, Option.filter_map,
        hpublic]
  · rw [List.findSome?_map, List.map_findSome?]
    exact congrArg (List.findSome? · _) (funext fun i => hf.declaredMethod? name d i)

theorem survivors (l : List (Declared MethodEntry)) :
    r'.survivors (l.map (Declared.rename f g)) = (r.survivors l).map (Declared.rename f g) := by
  rw [Resolver.survivors, hf.mostSpecific, Resolver.survivors]
  cases r.mostSpecific l <;> rfl

variable {c : ClassId} {name : MemberName} {d : MethodDescriptor} {throughInterface : Bool}

/-- What is left is the same, so that only the choice among it can differ. -/
theorem defaultMethod? (hchoice : r.ChoiceKept f g c name d) :
    r'.defaultMethod? (f c) name d = (r.defaultMethod? c name d).map (Declared.rename f g) := by
  unfold ChoiceKept at hchoice
  rw [Resolver.defaultMethod?, hf.defaultCandidates, Resolver.defaultMethod?]
  match r.defaultCandidates c name d, hchoice with
  | [], _ => rfl
  | [m], _ => rfl
  | m :: n :: l, hchoice =>
    have hpreferred := hf.preferConcrete (m :: n :: l)
    simp only [List.map_cons] at hpreferred ⊢
    rw [hpreferred]
    match Resolver.preferConcrete (m :: n :: l), hchoice with
    | [], _ => rfl
    | [o], _ => rfl
    | o :: p :: rest, hchoice =>
      show (r'.survivors ((o :: p :: rest).map (Declared.rename f g))).minOn? (·.owner.val) = _
      rw [hf.survivors]
      exact hchoice

theorem method? (hchoice : r.declaredMethod? name d c = none →
      r.inheritedMethod? c name d throughInterface = none → r.ChoiceKept f g c name d) :
    r'.method? (f c) name d throughInterface =
      (r.method? c name d throughInterface).map (Declared.rename f g) := by
  rw [Resolver.method?, hf.declaredMethod?, hf.inheritedMethod?, Resolver.method?]
  cases hd : r.declaredMethod? name d c with
  | some m => rfl
  | none =>
    cases hi : r.inheritedMethod? c name d throughInterface with
    | some m => rfl
    | none => exact hf.defaultMethod? (hchoice hd hi)

end Follows
end Resolver

/-! ### Other identifiers -/

/-- Other identifiers for classes, methods and fields, no two of them the same. -/
structure Relabeling where
  ofClass : ClassId → ClassId
  ofMethod : MethodId → MethodId
  ofField : FieldId → FieldId
  ofClass_injective : Function.Injective ofClass
  ofMethod_injective : Function.Injective ofMethod
  ofField_injective : Function.Injective ofField

namespace Relabeling
variable (ρ : Relabeling)

def ofMethodEntry (m : MethodEntry) : MethodEntry := { m with id := ρ.ofMethod m.id }

def ofFieldEntry (f : FieldEntry) : FieldEntry := { f with id := ρ.ofField f.id }

/-- A class as it is declared, with its members in their places. -/
def ofClassEntry (c : ClassEntry) : ClassEntry :=
  { c with
    id := ρ.ofClass c.id
    methods := c.methods.map ρ.ofMethodEntry
    fields := c.fields.map ρ.ofFieldEntry }

abbrev ofMethodFound : Declared MethodEntry → Declared MethodEntry :=
  Declared.rename ρ.ofClass ρ.ofMethodEntry

abbrev ofFieldFound : Declared FieldEntry → Declared FieldEntry :=
  Declared.rename ρ.ofClass ρ.ofFieldEntry

theorem ofClassEntry_decl (c : ClassEntry) : (ρ.ofClassEntry c).decl = c.decl := by
  simp only [ofClassEntry, ClassEntry.decl, List.map_map]
  rfl

theorem methodIds_ofClassEntry (c : ClassEntry) :
    (ρ.ofClassEntry c).methodIds = c.methodIds.map ρ.ofMethod := by
  simp only [ofClassEntry, ClassEntry.methodIds, List.map_map]
  rfl

theorem fieldIds_ofClassEntry (c : ClassEntry) :
    (ρ.ofClassEntry c).fieldIds = c.fieldIds.map ρ.ofField := by
  simp only [ofClassEntry, ClassEntry.fieldIds, List.map_map]
  rfl

/-- Resolvers of the same declarations follow each other if their hierarchies do. -/
theorem follows {r r' : Resolver} (hh : r.hierarchy.Follows ρ.ofClass r'.hierarchy)
    (hclass : ∀ c, r'.world.class? (ρ.ofClass c) = (r.world.class? c).map ρ.ofClassEntry) :
    Resolver.Follows ρ.ofClass ρ.ofMethodEntry ρ.ofFieldEntry r r' where
  hierarchy := hh
  decl _ := rfl
  declaredMethod? name d c := by
    have hfind : ∀ e : ClassEntry, (ρ.ofClassEntry e).findMethod? name d =
        (e.findMethod? name d).map ρ.ofMethodEntry := fun e => List.find?_map
    rw [Resolver.declaredMethod?, hclass, Resolver.declaredMethod?]
    cases r.world.class? c with
    | none => rfl
    | some e =>
      rw [Option.map_some, Option.bind_some, Option.bind_some, hfind, Option.map_map, Option.map_map]
      rfl
  declaredField? name t c := by
    have hfind : ∀ e : ClassEntry, (ρ.ofClassEntry e).findField? name t =
        (e.findField? name t).map ρ.ofFieldEntry := fun e => List.find?_map
    rw [Resolver.declaredField?, hclass, Resolver.declaredField?]
    cases r.world.class? c with
    | none => rfl
    | some e =>
      rw [Option.map_some, Option.bind_some, Option.bind_some, hfind, Option.map_map, Option.map_map]
      rfl

end Relabeling
end ClosedWorld
