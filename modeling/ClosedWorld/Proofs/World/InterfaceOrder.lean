import ClosedWorld.Proofs.World.Defaults
import Mathlib.Data.List.Forall2

/-!
# The order in which interfaces are declared

`Alike`: two declarations, classes, worlds or hierarchies that differ at most in the order and the
repetition of the interfaces that a class names. Registering like declarations keeps worlds alike, and
like worlds declare like hierarchies (`World.Alike.declared`). All that the searches find is described by
sets that do not see the order, down to the choice of a default method (`Resolver.Alike.defaultMethod?_eq`).
-/

namespace ClosedWorld

/-! ### Lists that correspond -/

section Corresponding
variable {α : Type} {R : α → α → Prop} {l l' : List α}

/-- What elements that correspond have in common, the first ones that pass a test have in common. -/
theorem map_find?_eq {β : Type} {p : α → Bool} {f : α → β}
    (hp : ∀ a b, R a b → p a = p b) (hf : ∀ a b, R a b → f a = f b) (h : List.Forall₂ R l l') :
    (l.find? p).map f = (l'.find? p).map f := by
  induction h with
  | nil => rfl
  | @cons a b l l' hab _ ih =>
    have hpab := hp a b hab
    cases ha : p a with
    | false =>
      rwa [List.find?_cons_of_neg (by simp [ha]), List.find?_cons_of_neg (by simp [← hpab, ha])]
    | true =>
      rw [List.find?_cons_of_pos ha, List.find?_cons_of_pos (hpab ▸ ha)]
      exact congrArg some (hf a b hab)

theorem exists_mem_iff {p q : α → Prop}
    (hpq : ∀ a b, R a b → (p a ↔ q b)) (h : List.Forall₂ R l l') :
    (∃ a ∈ l, p a) ↔ ∃ b ∈ l', q b := by
  induction h with
  | nil => simp
  | cons hab _ ih => simp [hpq _ _ hab, ih]

end Corresponding

/-! ### Like hierarchies -/

namespace Hierarchy

structure Alike (h h' : Hierarchy) : Prop where
  parents : h.parents = h'.parents
  interfaces : ∀ c i, i ∈ h.interfacesOf c ↔ i ∈ h'.interfacesOf c

namespace Alike
variable {h h' : Hierarchy} (hh : h.Alike h')
include hh

theorem parent?_eq : h.parent? = h'.parent? := by
  funext c
  rw [parent?, parent?, hh.parents]

theorem superclasses_eq : h.superclasses = h'.superclasses := by
  funext c
  rw [superclasses, superclasses, hh.parent?_eq, hh.parents]

theorem edge_interfaces_eq : Graph.Edge h.interfacesOf = Graph.Edge h'.interfacesOf := by
  funext c i
  exact propext (hh.interfaces c i)

theorem edge_supertypes_eq : Graph.Edge h.supertypes = Graph.Edge h'.supertypes := by
  funext c p
  refine propext ?_
  show p ∈ h.supertypes c ↔ p ∈ h'.supertypes c
  rw [supertypes, supertypes, List.mem_append, List.mem_append, hh.parent?_eq, hh.interfaces c p]

theorem acyclic_iff : h.Acyclic ↔ h'.Acyclic := by
  rw [Acyclic, Acyclic, hh.edge_supertypes_eq]

theorem subinterface_eq : h.Subinterface = h'.Subinterface := by
  funext a b
  rw [Subinterface, Subinterface, hh.edge_interfaces_eq]

theorem inherits_eq : h.Inherits = h'.Inherits := by
  funext c i
  rw [Inherits, Inherits, hh.parent?_eq, hh.subinterface_eq]

theorem isSubinterface_eq (ha : h.Acyclic) : h.isSubinterface = h'.isSubinterface := by
  funext a b
  rw [Bool.eq_iff_iff, ha.isSubinterface_iff, (hh.acyclic_iff.1 ha).isSubinterface_iff,
    hh.subinterface_eq]

theorem isAssignable_eq (ha : h.Acyclic) : h.isAssignable = h'.isAssignable := by
  funext a b
  have hinterfaces : (h.superinterfaces a).contains b = (h'.superinterfaces a).contains b := by
    rw [Bool.eq_iff_iff, List.contains_iff_mem, List.contains_iff_mem, ha.mem_superinterfaces_iff,
      (hh.acyclic_iff.1 ha).mem_superinterfaces_iff, hh.inherits_eq]
  rw [isAssignable, isAssignable, hh.superclasses_eq, hinterfaces]

end Alike
end Hierarchy

/-! ### Like resolvers -/

namespace Resolver

structure Alike (r r' : Resolver) : Prop where
  hierarchy : r.hierarchy.Alike r'.hierarchy
  declaredMethod?_eq : r.declaredMethod? = r'.declaredMethod?

namespace Alike
variable {r r' : Resolver} (hr : r.Alike r')
include hr

theorem inheritable_eq : r.inheritable = r'.inheritable := by
  funext c name d
  rw [inheritable, inheritable, hr.hierarchy.inherits_eq, hr.declaredMethod?_eq]

theorem maximallySpecific_eq : r.maximallySpecific = r'.maximallySpecific := by
  funext K
  rw [maximallySpecific, maximallySpecific, hr.hierarchy.subinterface_eq]

theorem inheritedMethod?_eq : r.inheritedMethod? = r'.inheritedMethod? := by
  funext c name d throughInterface
  rw [inheritedMethod?, inheritedMethod?, hr.hierarchy.parent?_eq, hr.hierarchy.superclasses_eq,
    hr.declaredMethod?_eq]

/-- The candidates come in another order, but the same one is registered first. -/
theorem defaultMethod?_eq (ha : r.hierarchy.Acyclic) : r.defaultMethod? = r'.defaultMethod? := by
  funext c name d
  refine Option.ext fun m => ?_
  rw [defaultMethod?_eq_some_iff ha, defaultMethod?_eq_some_iff (hr.hierarchy.acyclic_iff.1 ha),
    hr.inheritable_eq, hr.maximallySpecific_eq]

theorem method?_eq (ha : r.hierarchy.Acyclic) : r.method? = r'.method? := by
  funext c name d throughInterface
  rw [method?, method?, hr.declaredMethod?_eq, hr.inheritedMethod?_eq, hr.defaultMethod?_eq ha]

end Alike
end Resolver

/-! ### Like declarations -/

structure ClassHeader.Alike (c c' : ClassHeader) : Prop where
  name : c.name = c'.name
  super? : c.super? = c'.super?
  interfaces : ∀ n, n ∈ c.interfaces ↔ n ∈ c'.interfaces
  flags : c.flags = c'.flags

structure ClassDecl.Alike (d d' : ClassDecl) : Prop where
  header : d.toClassHeader.Alike d'.toClassHeader
  methods : d.methods = d'.methods
  fields : d.fields = d'.fields

structure ClassEntry.Alike (c c' : ClassEntry) : Prop where
  header : c.toClassHeader.Alike c'.toClassHeader
  id : c.id = c'.id
  methods : c.methods = c'.methods
  fields : c.fields = c'.fields

namespace World

/-- The same classes in the same order with the same numbers, up to the interfaces that they name. -/
structure Alike (w w' : World) : Prop where
  classes : List.Forall₂ ClassEntry.Alike w.classes w'.classes
  issued : w.issued = w'.issued

namespace Alike
variable {w w' : World} (hw : w.Alike w')
include hw

theorem lookup?_eq : w.lookup? = w'.lookup? := by
  funext name
  exact map_find?_eq (fun _ _ hc => by rw [hc.header.name]) (fun _ _ hc => hc.id) hw.classes

theorem class?_methods (id : ClassId) :
    (w.class? id).map (·.methods) = (w'.class? id).map (·.methods) :=
  map_find?_eq (fun _ _ hc => by rw [hc.id]) (fun _ _ hc => hc.methods) hw.classes

theorem unregister (id : ClassId) : (w.unregister id).2.Alike (w'.unregister id).2 := by
  refine ⟨?_, ?_⟩
  · rw [unregister_classes, unregister_classes]
    exact List.rel_filter (fun _ _ hc => by simp [hc.id]) hw.classes
  · rw [unregister_issued, unregister_issued, hw.issued]

theorem unregisterNamed (name : ClassName) :
    (w.unregisterNamed name).2.Alike (w'.unregisterNamed name).2 := by
  cases h : w.lookup? name with
  | none =>
    rw [unregisterNamed_of_unknown h, unregisterNamed_of_unknown (hw.lookup?_eq ▸ h)]
    exact hw
  | some id =>
    rw [unregisterNamed_of_lookup? h, unregisterNamed_of_lookup? (hw.lookup?_eq ▸ h)]
    exact hw.unregister id

theorem insert {d d' : ClassDecl} (hd : d.Alike d') : (w.insert d).Alike (w'.insert d') := by
  have hentry : (w.entryOf d).Alike (w'.entryOf d') := by
    refine ⟨hd.header, ?_, ?_, ?_⟩
    · simp only [entryOf, hw.issued]
    · simp only [entryOf, hw.issued, hd.methods]
    · simp only [entryOf, hw.issued, hd.fields]
  refine ⟨List.rel_append hw.classes (.cons hentry .nil), ?_⟩
  simp only [World.insert, hw.issued, hd.methods, hd.fields]

theorem register {d d' : ClassDecl} (hd : d.Alike d') : (w.register d).2.Alike (w'.register d').2 := by
  rw [register_snd, register_snd, ← hd.header.name]
  exact (hw.unregisterNamed d.name).insert hd

theorem registerAll {l l' : List ClassDecl} (hl : List.Forall₂ ClassDecl.Alike l l') :
    (w.run (l.map .register)).Alike (w'.run (l'.map .register)) := by
  induction hl generalizing w w' with
  | nil => exact hw
  | cons hd _ ih => exact ih (hw.register hd)

/-- Like worlds declare like hierarchies: a name leads to the same class in both, and only the lists of
interfaces differ. -/
theorem declared : w.declaredHierarchy.Alike w'.declaredHierarchy := by
  have hl := hw.lookup?_eq
  refine ⟨congrArg Edges.ofList ?_, fun c i => ?_⟩
  · have hedges : w.classes.map (fun e => (e.super?.bind w.lookup?).map (e.id, ·)) =
        w'.classes.map fun e => (e.super?.bind w'.lookup?).map (e.id, ·) := by
      rw [← List.forall₂_eq_eq_eq]
      exact List.rel_map (fun _ _ he => by rw [he.header.super?, he.id, hl]) hw.classes
    simpa [List.filterMap_map] using congrArg (List.filterMap id) hedges
  · rw [Hierarchy.interfacesOf, Hierarchy.interfacesOf, declared_interfaces, declared_interfaces,
      Edges.targets_ofList, Edges.targets_ofList, Arrows.mem_targets, Arrows.mem_targets,
      Arrows.mem_ofTargets, Arrows.mem_ofTargets]
    refine exists_mem_iff (fun e e' he => ?_) hw.classes
    simp only [List.mem_eraseDups, List.mem_filterMap, he.id, he.header.interfaces, hl]

theorem resolver {r r' : Resolver} (hr : r.world = w.linked) (hr' : r'.world = w'.linked) :
    r.Alike r' where
  hierarchy := by
    rw [Resolver.hierarchy, Resolver.hierarchy, hr, hr']
    exact hw.declared
  declaredMethod?_eq := by
    funext name d c
    have hmethods := congrArg (·.bind (List.find? fun m : MethodEntry =>
      m.decl.name = name ∧ m.decl.descriptor = d)) (hw.class?_methods c)
    simp only [Option.bind_map] at hmethods
    rw [Resolver.declaredMethod?, Resolver.declaredMethod?, hr, hr']
    exact congrArg (Option.map fun m => Declared.mk c m) hmethods

end Alike

/-! ### The result -/

/-- Both worlds can be asked, and they give the same answers about methods and about subtypes. -/
structure AnswersAlike (w w' : World) : Prop where
  classes : w.ids = w'.ids ∧ w.lookup? = w'.lookup?
  resolvers : ∃ r r', w.resolver = .ok r ∧ w'.resolver = .ok r' ∧
    (∀ c name d throughInterface,
      r.method? c name d throughInterface = r'.method? c name d throughInterface) ∧
    (∀ sub sup, r.hierarchy.isAssignable sub sup = r'.hierarchy.isAssignable sub sup) ∧
    ∀ sub sup, r.hierarchy.isSubinterface sub sup = r'.hierarchy.isSubinterface sub sup

theorem Alike.answersAlike {w w' : World} (hw : w.Alike w') (ha : w.declaredHierarchy.Acyclic) :
    w.linked.AnswersAlike w'.linked where
  classes := by
    refine ⟨?_, hw.lookup?_eq⟩
    rw [ids, ids, ← List.forall₂_eq_eq_eq]
    exact List.rel_map (fun _ _ hc => hc.id) hw.classes
  resolvers := by
    let r : Resolver := ⟨w.linked, w.stage_linked_ne⟩
    let r' : Resolver := ⟨w'.linked, w'.stage_linked_ne⟩
    have hr : r.Alike r' := hw.resolver rfl rfl
    refine ⟨r, r', resolver_of_stage _, resolver_of_stage _, fun c name d throughInterface => ?_,
      fun sub sup => ?_, fun sub sup => ?_⟩
    · rw [hr.method?_eq ha]
    · rw [hr.hierarchy.isAssignable_eq ha]
    · rw [hr.hierarchy.isSubinterface_eq ha]

/-- Worlds to which like declarations were registered in the same order can both be linked or neither of
them, and when they are linked, the methods that are found and the answers about subtypes are the same. -/
theorem answers_without_interface_order {l l' : List ClassDecl}
    (hl : List.Forall₂ ClassDecl.Alike l l') (s s' : Settings) :
    let w := (World.empty s).run (l.map .register)
    let w' := (World.empty s').run (l'.map .register)
    (w.link.1 = .ok () ↔ w'.link.1 = .ok ()) ∧
      (w.link.1 = .ok () → w.link.2.AnswersAlike w'.link.2) := by
  intro w w'
  have hempty : (World.empty s).Alike (World.empty s') := ⟨.nil, rfl⟩
  have hw : w.Alike w' := hempty.registerAll hl
  have hwf : w.WellFormed := Reachable.wellFormed ⟨s, _, rfl⟩
  have hwf' : w'.WellFormed := Reachable.wellFormed ⟨s', _, rfl⟩
  by_cases ha : w.declaredHierarchy.Acyclic
  · rw [link_of_acyclic hwf ha, link_of_acyclic hwf' (hw.declared.acyclic_iff.1 ha)]
    exact ⟨Iff.rfl, fun _ => hw.answersAlike ha⟩
  · obtain ⟨c, -, -, hlink⟩ := link_of_cyclic hwf ha
    obtain ⟨c', -, -, hlink'⟩ := link_of_cyclic hwf' (mt hw.declared.acyclic_iff.2 ha)
    rw [hlink, hlink']
    simp

/-- The drawings with the interfaces of each class turned around and named again. -/
def turnedDrawings : List ClassDecl :=
  drawings.map fun d => { d with interfaces := d.interfaces.reverse ++ d.interfaces }

theorem drawings_alike : List.Forall₂ ClassDecl.Alike drawings turnedDrawings := by
  refine List.forall₂_map_right_iff.2 (List.forall₂_same.2 fun d _ => ?_)
  exact ⟨⟨rfl, rfl, by simp, rfl⟩, rfl, rfl⟩

theorem answers_without_interface_order_drawings :
    let w := (World.empty {}).run (drawings.map .register)
    let w' := (World.empty .membersOnly).run (turnedDrawings.map .register)
    List.Forall₂ ClassDecl.Alike drawings turnedDrawings ∧
      (w.link.1 = .ok () ↔ w'.link.1 = .ok ()) ∧
      (w.link.1 = .ok () → w.link.2.AnswersAlike w'.link.2) :=
  ⟨drawings_alike, answers_without_interface_order drawings_alike {} .membersOnly⟩

end World
end ClosedWorld
