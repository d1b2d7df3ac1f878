import ClosedWorld.Proofs.World.Moves

/-!
# Linking refuses cycles

`Extends`: one registered class names another as its superclass or as an interface. The edges of the
declared hierarchy join the identifiers of just these classes (`edge_declared_iff`), so a class is its own
proper supertype there exactly if the declarations lead from it back to it (`transGen_declared_iff`). As
linking searches the declared hierarchy and looks at no other edge, its outcome depends on the
declarations only.
-/

namespace ClosedWorld.World
open Relation
variable {w : World} {a b c : ClassEntry}

/-- One registered class declares the other as its superclass or as an interface. -/
structure Extends (w : World) (a b : ClassEntry) : Prop where
  sub : a ∈ w.classes
  sup : b ∈ w.classes
  declared : a.super? = some b.name ∨ b.name ∈ a.interfaces

theorem mem_of_transGen_extends (h : TransGen w.Extends a b) : a ∈ w.classes := by
  obtain ⟨c, hac, -⟩ := TransGen.head'_iff.1 h
  exact hac.sub

theorem edge_declared_iff (hw : w.WellFormed) {i j : ClassId} :
    Graph.Edge w.declaredHierarchy.supertypes i j ↔ ∃ a b, w.Extends a b ∧ a.id = i ∧ b.id = j := by
  have hedge := (declaredHierarchy_over hw).mem_supertypes (c := i) (p := j)
  rw [declared_parents, declared_interfaces, Edges.outward_ofList, Edges.outward_ofList,
    Arrows.mem_ofTargets, Arrows.mem_ofTargets] at hedge
  refine hedge.trans ⟨?_, ?_⟩
  · rintro (⟨a, ha, hi, hj⟩ | ⟨a, ha, hi, hj⟩)
    · obtain ⟨n, hn, hl⟩ := Option.bind_eq_some_iff.1 (Option.mem_toList.1 hj)
      obtain ⟨b, hb, rfl, hbj⟩ := hw.lookup?_eq_some_iff.1 hl
      exact ⟨a, b, ⟨ha, hb, .inl hn⟩, hi, hbj⟩
    · obtain ⟨n, hn, hl⟩ := List.mem_filterMap.1 (List.mem_eraseDups.1 hj)
      obtain ⟨b, hb, rfl, hbj⟩ := hw.lookup?_eq_some_iff.1 hl
      exact ⟨a, b, ⟨ha, hb, .inr hn⟩, hi, hbj⟩
  · rintro ⟨a, b, ⟨ha, hb, hsuper | hinterface⟩, hi, rfl⟩
    · refine .inl ⟨a, ha, hi, Option.mem_toList.2 (Option.bind_eq_some_iff.2 ⟨b.name, hsuper, ?_⟩)⟩
      exact hw.lookup?_of_mem hb
    · refine .inr ⟨a, ha, hi, List.mem_eraseDups.2 (List.mem_filterMap.2 ⟨b.name, hinterface, ?_⟩)⟩
      exact hw.lookup?_of_mem hb

/-- What identifiers lead to in the hierarchy, the declarations of their classes lead to. -/
theorem transGen_declared_iff (hw : w.WellFormed) (ha : a ∈ w.classes) (hb : b ∈ w.classes) :
    TransGen (Graph.Edge w.declaredHierarchy.supertypes) a.id b.id ↔ TransGen w.Extends a b := by
  constructor
  · intro h
    generalize hj : b.id = j at h
    induction h generalizing b with
    | single hedge =>
      obtain ⟨a', b', hext, ha', hb'⟩ := (edge_declared_iff hw).1 hedge
      obtain rfl := hw.class_ext hext.sub ha ha'
      obtain rfl := hw.class_ext hext.sup hb (hb'.trans hj.symm)
      exact .single hext
    | tail _ hedge ih =>
      obtain ⟨c, b', hext, hc, hb'⟩ := (edge_declared_iff hw).1 hedge
      obtain rfl := hw.class_ext hext.sup hb (hb'.trans hj.symm)
      exact (ih hext.sub hc).tail hext
  · intro h
    exact TransGen.lift (·.id) (fun a b hab => (edge_declared_iff hw).2 ⟨a, b, hab, rfl, rfl⟩) _ _ h

theorem acyclic_declared_iff (hw : w.WellFormed) :
    w.declaredHierarchy.Acyclic ↔ ∀ c, ¬ TransGen w.Extends c c := by
  constructor
  · intro hacyclic c hcycle
    have hc := mem_of_transGen_extends hcycle
    exact hacyclic c.id ((transGen_declared_iff hw hc hc).2 hcycle)
  · intro hacyclic i hcycle
    obtain ⟨j, hedge, -⟩ := TransGen.head'_iff.1 hcycle
    obtain ⟨c, _, hext, rfl, -⟩ := (edge_declared_iff hw).1 hedge
    exact hacyclic c ((transGen_declared_iff hw hext.sub hext.sub).1 hcycle)

/-- What linking leaves when it has refused a world. -/
structure Refused (w w' : World) (e : WorldError) : Prop where
  /-- The error names a class that its declarations lead back to. -/
  cycle : ∃ c ∈ w.classes, TransGen w.Extends c c ∧ e = .cyclicInheritance c.name
  stage : w'.stage = .unlinked
  hierarchy : w'.hierarchy = {}
  references : w'.references = {}

/-- Linking succeeds exactly if no declarations lead from a class back to it, and a failure names a class
on a cycle and leaves no edge. Either way the classes stay as they are, with their identifiers, members
and bodies. -/
theorem link_refuses_cycles (h : w.Reachable) :
    (w.link.1 = .ok () ↔ ∀ c, ¬ TransGen w.Extends c c) ∧
      (w.link.1 = .ok () → w.link.2.stage = .linked) ∧
      (∀ e, w.link.1 = .error e → w.Refused w.link.2 e) ∧
      w.link.2.classes = w.classes ∧ w.link.2.issued = w.issued ∧ w.link.2.settings = w.settings := by
  have hw := h.wellFormed
  rw [← acyclic_declared_iff hw]
  by_cases hacyclic : w.declaredHierarchy.Acyclic
  · rw [link_of_acyclic hw hacyclic]
    exact ⟨⟨fun _ => hacyclic, fun _ => rfl⟩, fun _ => rfl, fun _ he => (nomatch he), rfl, rfl, rfl⟩
  · obtain ⟨c, hc, hcycle, hlink⟩ := link_of_cyclic hw hacyclic
    rw [hlink]
    refine ⟨⟨fun hok => (nomatch hok), fun ha => absurd ha hacyclic⟩, fun hok => (nomatch hok),
      fun e he => ?_, rfl, rfl, rfl⟩
    obtain rfl := Except.error.inj he
    exact ⟨⟨c, hc, (transGen_declared_iff hw hc hc).1 hcycle, rfl⟩, rfl, rfl, rfl⟩

/-- Beside the shapes, two interfaces are registered that extend each other. -/
theorem link_refuses_cycles_shapes :
    let solid : ClassName := ⟨"Solid", by decide +kernel⟩
    let hollow : ClassName := ⟨"Hollow", by decide +kernel⟩
    let w := ofShapes [.linkAndIndex,
      .register { ClassHeader.interface solid with interfaces := [hollow] },
      .register { ClassHeader.interface hollow with interfaces := [solid] }]
    (w.Reachable ∧ w.link.1 ≠ .ok ()) ∧
      (w.link.1 = .ok () ↔ ∀ c, ¬ TransGen w.Extends c c) ∧
      (w.link.1 = .ok () → w.link.2.stage = .linked) ∧
      (∀ e, w.link.1 = .error e → w.Refused w.link.2 e) ∧
      w.link.2.classes = w.classes ∧ w.link.2.issued = w.issued ∧ w.link.2.settings = w.settings :=
  ⟨⟨reachable_ofShapes _, by decide +kernel⟩, link_refuses_cycles (reachable_ofShapes _)⟩

end ClosedWorld.World
