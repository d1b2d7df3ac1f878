import ClosedWorld.Proofs.World.Defaults
import ClosedWorld.Proofs.World.Following
import ClosedWorld.Proofs.World.Fresh
import ClosedWorld.Proofs.World.Linked

/-!
# Only ties see the order of registration

Declarations of different names are registered twice, in two orders. A class is another number in the
second world, but it has the same declaration, and its members have their numbers by their places in it
(`Relabeling.Shuffles`). Names are looked up to the same classes, so the declared hierarchies follow each
other, either has a cycle if the other has, and all walks and searches agree (`Shuffles.follows`). What is
listed of a class from below comes in another order. Of the answers only one looks at the numbers: the
choice among default methods that are left, where the order matters if there is more than one.
-/

namespace ClosedWorld

/-! ### Names along a list -/

section Along
variable {ι : Type} [DecidableEq ι] {a b : List ι}

/-- Sends the members of one list to those of another, place by place, and leaves the rest alone. -/
def along (a b : List ι) (x : ι) : ι := (b[a.idxOf x]?).getD x

theorem map_along (ha : a.Nodup) (hlen : a.length = b.length) : a.map (along a b) = b := by
  refine List.ext_getElem (by simpa using hlen) fun i hi hi' => ?_
  rw [List.getElem_map, along, ha.idxOf_getElem, List.getElem?_eq_getElem hi', Option.getD_some]

theorem along_of_not_mem (hlen : a.length = b.length) {x : ι} (hx : x ∉ a) : along a b x = x := by
  rw [along, List.idxOf_eq_length hx, List.getElem?_eq_none (by omega), Option.getD_none]

theorem along_injective (hp : b.Perm a) (ha : a.Nodup) : Function.Injective (along a b) := by
  have hlen : a.length = b.length := hp.length_eq.symm
  have hmem : ∀ x ∈ a, along a b x ∈ a := fun x hx => by
    have h : along a b x ∈ a.map (along a b) := List.mem_map_of_mem hx
    rw [map_along ha hlen] at h
    exact hp.subset h
  have hon : (a.map (along a b)).Nodup := (map_along ha hlen).symm ▸ hp.nodup_iff.2 ha
  intro x y hxy
  by_cases hx : x ∈ a <;> by_cases hy : y ∈ a
  · exact List.inj_on_of_nodup_map hon hx hy hxy
  · rw [along_of_not_mem hlen hy] at hxy
    exact absurd (hxy ▸ hmem x hx) hy
  · rw [along_of_not_mem hlen hx] at hxy
    exact absurd (hxy ▸ hmem y hy) hx
  · rwa [along_of_not_mem hlen hx, along_of_not_mem hlen hy] at hxy

end Along

/-- A list whose images are given in another order. -/
theorem exists_perm_map_eq {α β : Type} {f : α → β} {l : List α} {m : List β} (h : m.Perm (l.map f)) :
    ∃ l' : List α, l'.Perm l ∧ l'.map f = m := by
  have himages : List.Forall₂ (fun b a => b = f a) (l.map f) l :=
    List.forall₂_map_left_iff.2 (List.forall₂_same.2 fun _ _ => rfl)
  obtain ⟨l', hl', hp⟩ := List.perm_comp_forall₂ h himages
  have heq : List.Forall₂ Eq m (l'.map f) := List.forall₂_map_right_iff.2 hl'
  rw [List.forall₂_eq_eq_eq] at heq
  exact ⟨l', hp, heq.symm⟩

/-! ### The same classes in another order -/

/-- The classes of one world are those of the other with other identifiers, in some order. -/
def Relabeling.Shuffles (ρ : Relabeling) (w w' : World) : Prop :=
  w'.classes.Perm (w.classes.map ρ.ofClassEntry)

namespace World
variable {w w' : World}

/-- Identifiers without gaps are the same if there are as many of them. -/
theorem eq_of_range {ι : Type} {val : ι → ℕ} (hval : Function.Injective val) {l l' : List ι} {n n' : ℕ}
    (hl : l.map val = List.range n) (hl' : l'.map val = List.range n') (hlen : l.length = l'.length) :
    l = l' := by
  have hn : n = l.length := by simpa using (congrArg List.length hl).symm
  have hn' : n' = l'.length := by simpa using (congrArg List.length hl').symm
  refine List.map_injective_iff.2 hval ?_
  rw [hl, hl', hn, hn', hlen]

/-- Without gaps, as many classes with as many members have the same identifiers. -/
theorem Compact.ids_eq (hw : w.Compact) (hw' : w'.Compact) (hp : w.decls.Perm w'.decls) :
    w.ids = w'.ids ∧ w.methodIds = w'.methodIds ∧ w.fieldIds = w'.fieldIds := by
  refine ⟨eq_of_range ClassId.val_injective hw.classes hw'.classes ?_,
    eq_of_range MethodId.val_injective hw.methods hw'.methods ?_,
    eq_of_range FieldId.val_injective hw.fields hw'.fields ?_⟩
  · rw [length_ids, length_ids, hp.length_eq]
  · rw [length_methodIds, length_methodIds, (hp.flatMap_right _).length_eq]
  · rw [length_fieldIds, length_fieldIds, (hp.flatMap_right _).length_eq]

/-- Worlds without gaps and of the same declarations have the same classes, in another order. -/
theorem exists_shuffles (hw : w.Compact) (hw' : w'.Compact) (hwf : w.WellFormed)
    (hp : w.decls.Perm w'.decls) : ∃ ρ : Relabeling, ρ.Shuffles w w' := by
  obtain ⟨hids, hmethods, hfields⟩ := hw.ids_eq hw' hp
  -- the classes of the second world in the order of the first
  obtain ⟨l, hl, hdecls⟩ : ∃ l : List ClassEntry, l.Perm w'.classes ∧ l.map (·.decl) = w.decls :=
    exists_perm_map_eq hp
  have hi : (l.map (·.id)).Perm w.ids := hids ▸ hl.map _
  have hm : (l.flatMap (·.methodIds)).Perm w.methodIds := by
    rw [hmethods, methodIds_eq]
    exact hl.flatMap_right _
  have hf : (l.flatMap (·.fieldIds)).Perm w.fieldIds := by
    rw [hfields, fieldIds_eq]
    exact hl.flatMap_right _
  let ρ : Relabeling :=
    { ofClass := along w.ids (l.map (·.id))
      ofMethod := along w.methodIds (l.flatMap (·.methodIds))
      ofField := along w.fieldIds (l.flatMap (·.fieldIds))
      ofClass_injective := along_injective hi hwf.ids_nodup
      ofMethod_injective := along_injective hm hwf.methodIds_nodup
      ofField_injective := along_injective hf hwf.fieldIds_nodup }
  have hids' : w.ids.map ρ.ofClass = l.map (·.id) := map_along hwf.ids_nodup hi.length_eq.symm
  have hmethods' : w.methodIds.map ρ.ofMethod = l.flatMap (·.methodIds) :=
    map_along hwf.methodIds_nodup hm.length_eq.symm
  have hfields' : w.fieldIds.map ρ.ofField = l.flatMap (·.fieldIds) :=
    map_along hwf.fieldIds_nodup hf.length_eq.symm
  rw [methodIds_eq] at hmethods'
  rw [fieldIds_eq] at hfields'
  exact ⟨ρ, hl.symm.trans (.of_eq (ρ.map_ofClassEntry hdecls.symm hids' hmethods' hfields').symm)⟩

end World

/-! ### What is above a class and what is below it -/

namespace Arrows
variable {α β γ α' β' : Type} {f : α → α'} {g : β → β'}

/-- Arrows that are written down in another order and under other names. -/
theorem ofTargets_perm {l l' : List γ} {e : γ → γ} (hl : l'.Perm (l.map e)) {key : γ → α}
    {key' : γ → α'} (hkey : ∀ x, key' (e x) = f (key x)) {F : γ → List β} {F' : γ → List β'}
    (hF : ∀ x, F' (e x) = (F x).map g) : (ofTargets l' key' F').Perm ((ofTargets l key F).rename f g) :=
  (hl.flatMap_right _).trans (.of_eq (ofTargets_map hkey hF l))

end Arrows

/-- What is listed from below comes in another order as well. -/
theorem Edges.Agree.sources_perm {α β α' β' : Type} [DecidableEq α] [DecidableEq β] [DecidableEq α']
    [DecidableEq β'] {f : α → α'} {g : β → β'} {e : Edges α β} {e' : Edges α' β'} (h : e.Agree)
    (h' : e'.Agree) (hg : Function.Injective g) (hp : e'.outward.Perm (e.outward.rename f g)) (b : β) :
    (e'.sources (g b)).Perm ((e.sources b).map f) := by
  rw [h.sources_eq, h'.sources_eq, ← Arrows.sources_rename hg]
  exact hp.filterMap _

namespace World
variable {w : World}

theorem not_mem_ids_of_class? (hw : w.WellFormed) {c : ClassId} (hc : w.class? c = none) : c ∉ w.ids := by
  intro hmem
  obtain ⟨e, he, rfl⟩ := mem_ids.1 hmem
  rw [hw.class?_eq_some_iff.2 ⟨he, rfl⟩] at hc
  cases hc

theorem parent?_declared_eq (hw : w.WellFormed) (c : ClassId) :
    w.declaredHierarchy.parent? c = (w.class? c).bind fun e => e.super?.bind w.lookup? := by
  cases hc : w.class? c with
  | none =>
    rw [Hierarchy.parent?, declared_parents, Edges.targets_ofList,
      Arrows.targets_ofTargets_of_not_mem (not_mem_ids_of_class? hw hc)]
    rfl
  | some e =>
    obtain ⟨he, rfl⟩ := hw.class?_eq_some_iff.1 hc
    exact parent?_declared hw he

theorem interfacesOf_declared_eq (hw : w.WellFormed) (c : ClassId) : w.declaredHierarchy.interfacesOf c =
    (w.class? c).elim [] fun e => (e.interfaces.filterMap w.lookup?).eraseDups := by
  cases hc : w.class? c with
  | none =>
    rw [Hierarchy.interfacesOf, declared_interfaces, Edges.targets_ofList,
      Arrows.targets_ofTargets_of_not_mem (not_mem_ids_of_class? hw hc)]
    rfl
  | some e =>
    obtain ⟨he, rfl⟩ := hw.class?_eq_some_iff.1 hc
    exact interfacesOf_declared hw he

end World

namespace Relabeling.Shuffles
variable {ρ : Relabeling} {w w' : World} (h : ρ.Shuffles w w') (hw : w.WellFormed) (hw' : w'.WellFormed)
include h

theorem mem {c : ClassEntry} (hc : c ∈ w.classes) : ρ.ofClassEntry c ∈ w'.classes :=
  h.symm.subset (List.mem_map_of_mem hc)

theorem exists_of_mem {c' : ClassEntry} (hc : c' ∈ w'.classes) : ∃ c ∈ w.classes, ρ.ofClassEntry c = c' :=
  List.mem_map.1 (h.subset hc)

include hw hw'

theorem lookup? (name : ClassName) : w'.lookup? name = (w.lookup? name).map ρ.ofClass := by
  cases hl : w.lookup? name with
  | none =>
    refine World.lookup?_eq_none_iff.2 fun c' hc' => ?_
    obtain ⟨c, hc, rfl⟩ := h.exists_of_mem hc'
    exact World.lookup?_eq_none_iff.1 hl c hc
  | some i =>
    obtain ⟨c, hc, rfl, rfl⟩ := hw.lookup?_eq_some_iff.1 hl
    exact hw'.lookup?_of_mem (h.mem hc)

theorem class? (i : ClassId) : w'.class? (ρ.ofClass i) = (w.class? i).map ρ.ofClassEntry := by
  cases hi : w.class? i with
  | none =>
    refine Option.eq_none_iff_forall_ne_some.2 fun c' hc' => ?_
    obtain ⟨hc', hid⟩ := hw'.class?_eq_some_iff.1 hc'
    obtain ⟨c, hc, rfl⟩ := h.exists_of_mem hc'
    have hfound := hw.class?_eq_some_iff.2 ⟨hc, ρ.ofClass_injective hid⟩
    rw [hi] at hfound
    cases hfound
  | some c =>
    obtain ⟨hc, rfl⟩ := hw.class?_eq_some_iff.1 hi
    exact hw'.class?_eq_some_iff.2 ⟨h.mem hc, rfl⟩

theorem parents_perm : w'.declaredHierarchy.parents.outward.Perm
    (w.declaredHierarchy.parents.outward.rename ρ.ofClass ρ.ofClass) := by
  rw [World.declared_parents, World.declared_parents, Edges.outward_ofList, Edges.outward_ofList]
  refine Arrows.ofTargets_perm h ?_ fun c => ?_
  · exact fun _ => rfl
  · rw [← Option.toList_map, ← World.super?_of_lookup? (h.lookup? hw hw')]
    rfl

theorem interfaces_perm : w'.declaredHierarchy.interfaces.outward.Perm
    (w.declaredHierarchy.interfaces.outward.rename ρ.ofClass ρ.ofClass) := by
  rw [World.declared_interfaces, World.declared_interfaces, Edges.outward_ofList, Edges.outward_ofList]
  refine Arrows.ofTargets_perm h ?_ fun c => ?_
  · exact fun _ => rfl
  · exact World.interfaces_of_lookup? (h.lookup? hw hw') c ρ.ofClass_injective

theorem follows : w.declaredHierarchy.Follows ρ.ofClass w'.declaredHierarchy where
  injective := ρ.ofClass_injective
  parent? c := by
    rw [World.parent?_declared_eq hw, World.parent?_declared_eq hw', h.class? hw hw']
    cases w.class? c with
    | none => rfl
    | some e => exact World.super?_of_lookup? (h.lookup? hw hw') e
  interfacesOf c := by
    rw [World.interfacesOf_declared_eq hw, World.interfacesOf_declared_eq hw', h.class? hw hw']
    cases w.class? c with
    | none => rfl
    | some e => exact World.interfaces_of_lookup? (h.lookup? hw hw') e ρ.ofClass_injective
  parents_length := (h.parents_perm hw hw').length_eq.trans (List.length_map _)
  interfaces_length := (h.interfaces_perm hw hw').length_eq.trans (List.length_map _)

theorem children_perm (c : ClassId) : (w'.declaredHierarchy.children (ρ.ofClass c)).Perm
    ((w.declaredHierarchy.children c).map ρ.ofClass) :=
  (World.declaredHierarchy_over hw).parents.agree.sources_perm
    (World.declaredHierarchy_over hw').parents.agree ρ.ofClass_injective (h.parents_perm hw hw') c

theorem implementers_perm (c : ClassId) : (w'.declaredHierarchy.implementers (ρ.ofClass c)).Perm
    ((w.declaredHierarchy.implementers c).map ρ.ofClass) :=
  (World.declaredHierarchy_over hw).interfaces.agree.sources_perm
    (World.declaredHierarchy_over hw').interfaces.agree ρ.ofClass_injective (h.interfaces_perm hw hw') c

/-- In the linked worlds, what is declared and what stands above it is the same. -/
theorem follows_linked : Resolver.Follows ρ.ofClass ρ.ofMethodEntry ρ.ofFieldEntry
    ⟨w.linked, w.stage_linked_ne⟩ ⟨w'.linked, w'.stage_linked_ne⟩ :=
  ρ.follows (h.follows hw hw') (h.class? hw hw')

end Relabeling.Shuffles

/-! ### Methods without a tie -/

namespace Resolver
variable {f : ClassId → ClassId} {g : MethodEntry → MethodEntry} {k : FieldEntry → FieldEntry}
  {r r' : Resolver} {c : ClassId} {name : MemberName} {d : MethodDescriptor} {throughInterface : Bool}

/-- If a method is looked for in the interfaces above a class, at most one is left to choose from. -/
def Uncontested (r : Resolver) (c : ClassId) (name : MemberName) (d : MethodDescriptor)
    (throughInterface : Bool) : Prop :=
  r.declaredMethod? name d c = none → r.inheritedMethod? c name d throughInterface = none →
    (r.survivors (preferConcrete (r.defaultCandidates c name d))).length ≤ 1

/-- The numbers of the interfaces are compared, but there are no two of them. -/
theorem choiceKept_of_length
    (hone : (r.survivors (preferConcrete (r.defaultCandidates c name d))).length ≤ 1) :
    r.ChoiceKept f g c name d := by
  unfold ChoiceKept
  match r.survivors (preferConcrete (r.defaultCandidates c name d)), hone with
  | [], _ => rfl
  | [m], _ => exact List.minOn?_singleton

theorem Follows.method?_of_uncontested (hf : Follows f g k r r')
    (hone : r.Uncontested c name d throughInterface) :
    r'.method? (f c) name d throughInterface =
      (r.method? c name d throughInterface).map (Declared.rename f g) :=
  hf.method? fun hd hi => choiceKept_of_length (hone hd hi)

end Resolver

/-! ### The result -/

/-- Two linked worlds of the same classes in different orders, with the same answers. -/
structure Relabeling.Agrees (ρ : Relabeling) (r r' : Resolver) : Prop where
  classes : ρ.Shuffles r.world r'.world
  parent? : ∀ c, r'.hierarchy.parent? (ρ.ofClass c) = (r.hierarchy.parent? c).map ρ.ofClass
  interfaces : ∀ c, r'.hierarchy.interfacesOf (ρ.ofClass c) = (r.hierarchy.interfacesOf c).map ρ.ofClass
  children : ∀ c, (r'.hierarchy.children (ρ.ofClass c)).Perm ((r.hierarchy.children c).map ρ.ofClass)
  implementers : ∀ c,
    (r'.hierarchy.implementers (ρ.ofClass c)).Perm ((r.hierarchy.implementers c).map ρ.ofClass)
  superclasses : ∀ c,
    r'.hierarchy.superclasses (ρ.ofClass c) = (r.hierarchy.superclasses c).map ρ.ofClass
  superinterfaces : ∀ c,
    r'.hierarchy.superinterfaces (ρ.ofClass c) = (r.hierarchy.superinterfaces c).map ρ.ofClass
  isAssignable : ∀ sub sup, r'.hierarchy.isAssignable (ρ.ofClass sub) (ρ.ofClass sup) =
    r.hierarchy.isAssignable sub sup
  isSubinterface : ∀ sub sup, r'.hierarchy.isSubinterface (ρ.ofClass sub) (ρ.ofClass sup) =
    r.hierarchy.isSubinterface sub sup
  field? : ∀ c name t, r'.field? (ρ.ofClass c) name t = (r.field? c name t).map ρ.ofFieldFound
  method? : ∀ c name d throughInterface, r.Uncontested c name d throughInterface →
    r'.method? (ρ.ofClass c) name d throughInterface =
      (r.method? c name d throughInterface).map ρ.ofMethodFound

namespace World
variable {w w' : World} {ρ : Relabeling}

theorem agrees_linked (h : ρ.Shuffles w w') (hw : w.WellFormed) (hw' : w'.WellFormed) :
    ρ.Agrees ⟨w.linked, w.stage_linked_ne⟩ ⟨w'.linked, w'.stage_linked_ne⟩ := by
  have hr := h.follows_linked hw hw'
  have hf := h.follows hw hw'
  exact ⟨h, hf.parent?, hf.interfacesOf, h.children_perm hw hw', h.implementers_perm hw hw',
    hf.superclasses, hf.superinterfaces, hf.isAssignable, hf.isSubinterface, hr.field?,
    fun _ _ _ _ => hr.method?_of_uncontested⟩

/-- A new world in which declarations are registered in their order. -/
def ofDecls (s : Settings) (l : List ClassDecl) : World := (empty s).run (l.map .register)

theorem ofDecls_compact (s : Settings) {l : List ClassDecl} (hl : (l.map (·.name)).Nodup) :
    (ofDecls s l).Compact ∧ (ofDecls s l).decls = l := by
  obtain ⟨hc, hd, -⟩ := run_register (.empty s) hl
  exact ⟨hc, hd⟩

theorem wellFormed_ofDecls (s : Settings) (l : List ClassDecl) : (ofDecls s l).WellFormed :=
  Reachable.wellFormed ⟨s, _, rfl⟩

variable {l l' : List ClassDecl}

theorem exists_shuffles_ofDecls (hp : l.Perm l') (hl : (l.map (·.name)).Nodup) (s : Settings) :
    ∃ ρ : Relabeling, ρ.Shuffles (ofDecls s l) (ofDecls s l') := by
  obtain ⟨hc, hd⟩ := ofDecls_compact s hl
  obtain ⟨hc', hd'⟩ := ofDecls_compact s ((hp.map _).nodup_iff.1 hl)
  exact exists_shuffles hc hc' (wellFormed_ofDecls s l) (by rwa [hd, hd'])

/-- Declarations of different names can be registered in any order. Linking refuses them in all orders
or in none, and then all orders agree, but for the choice between default methods that are left. -/
theorem link_of_perm (hp : l.Perm l') (hl : (l.map (·.name)).Nodup) (s : Settings) :
    (∃ name name', (ofDecls s l).link.1 = .error (.cyclicInheritance name) ∧
        (ofDecls s l').link.1 = .error (.cyclicInheritance name')) ∨
      ∃ (ρ : Relabeling) (r r' : Resolver), (ofDecls s l).link.1 = .ok () ∧
        (ofDecls s l').link.1 = .ok () ∧ (ofDecls s l).link.2.resolver = .ok r ∧
        (ofDecls s l').link.2.resolver = .ok r' ∧ ρ.Agrees r r' := by
  have hw := wellFormed_ofDecls s l
  have hw' := wellFormed_ofDecls s l'
  obtain ⟨ρ, h⟩ := exists_shuffles_ofDecls hp hl s
  obtain ⟨ρ', h'⟩ := exists_shuffles_ofDecls hp.symm ((hp.map _).nodup_iff.1 hl) s
  by_cases ha : (ofDecls s l).declaredHierarchy.Acyclic
  · have ha' : (ofDecls s l').declaredHierarchy.Acyclic := (h'.follows hw' hw).acyclic ha
    refine .inr ⟨ρ, _, _, ?_, ?_, ?_, ?_, agrees_linked h hw hw'⟩
    · rw [link_of_acyclic hw ha]
    · rw [link_of_acyclic hw' ha']
    · rw [link_of_acyclic hw ha]
      exact resolver_of_stage _
    · rw [link_of_acyclic hw' ha']
      exact resolver_of_stage _
  · have ha' : ¬ (ofDecls s l').declaredHierarchy.Acyclic := mt (h.follows hw hw').acyclic ha
    obtain ⟨c, -, -, hc⟩ := link_of_cyclic hw ha
    obtain ⟨c', -, -, hc'⟩ := link_of_cyclic hw' ha'
    exact .inl ⟨c.name, c'.name, by rw [hc], by rw [hc']⟩

theorem link_of_perm_drawings :
    (drawings.Perm drawings.reverse ∧ (drawings.map (·.name)).Nodup) ∧
      ((∃ name name', (ofDecls {} drawings).link.1 = .error (.cyclicInheritance name) ∧
          (ofDecls {} drawings.reverse).link.1 = .error (.cyclicInheritance name')) ∨
        ∃ (ρ : Relabeling) (r r' : Resolver), (ofDecls {} drawings).link.1 = .ok () ∧
          (ofDecls {} drawings.reverse).link.1 = .ok () ∧
          (ofDecls {} drawings).link.2.resolver = .ok r ∧
          (ofDecls {} drawings.reverse).link.2.resolver = .ok r' ∧ ρ.Agrees r r') :=
  have hp : drawings.Perm drawings.reverse := (List.reverse_perm _).symm
  have hl : (drawings.map (·.name)).Nodup := by decide +kernel
  ⟨⟨hp, hl⟩, link_of_perm hp hl {}⟩

-- The button is the last class and inherits the method of the drawable, the first. In the other order it
-- is the first class and inherits the method of the sprite, the second.
example :
    let owner (l : List ClassDecl) (c : ClassId) : Option ClassId :=
      let r : Resolver := ⟨(ofDecls {} l).linked, stage_linked_ne _⟩
      (r.method? c drawName drawType false).map (·.owner)
    owner drawings ⟨3⟩ = some ⟨0⟩ ∧ owner drawings.reverse ⟨0⟩ = some ⟨1⟩ := by
  decide +kernel

end World
end ClosedWorld
