import ClosedWorld.Proofs.World.Closed
import ClosedWorld.Proofs.World.Linked
import ClosedWorld.Proofs.World.Superinterfaces
import ClosedWorld.World.Rounds

/-!
# Searches come to an end

In a hierarchy without cycles the classes above a class are those above its superclass and the superclass
itself. So the way up meets no class twice and ends, after no more steps than there are classes
(`Acyclic.walk`), and a loop that climbs without remembering anything is done after as many rounds
(`Acyclic.climb?_superclasses`, `Acyclic.climbTo?_superclasses`). A loop that spreads to interfaces takes a
round for each vertex that joins its queue, and none joins it along an edge that was followed before
(`Graph.spread?_eq_breadthFirst`). With rounds enough, every search of a resolver is done, and its answer
is the one that the resolver gives (`Resolver.Finishes`).
-/

namespace ClosedWorld

/-! ### Loops over a graph -/

theorem Arrows.length_without_cons {α : Type} [DecidableEq α] {l : Arrows α α} {a : α} {as : List α}
    (ha : a ∉ as) :
    (l.targets a).length + (l.without (a :: as) []).length = (l.without as []).length := by
  induction l with
  | nil => rfl
  | cons x l ih =>
    obtain ⟨x₁, x₂⟩ := x
    by_cases hx : x₁ = a
    · subst hx
      simp_all [targets, without]
      omega
    · by_cases hmem : x₁ ∈ as
      · simp_all [targets, without]
      · simp_all [targets, without]
        omega

namespace Graph
variable {α : Type} [DecidableEq α] {l : Arrows α α} {vertices seen queue : List α} {fuel rounds : Nat}

theorem breadthFirst_of_mem_seen {next : α → List α} {a : α} (ha : a ∈ seen) :
    breadthFirst next fuel seen (a :: queue) = breadthFirst next fuel seen queue := by
  cases fuel with
  | zero => rfl
  | succ fuel => simp only [breadthFirst, List.dropWhile_cons_of_pos (List.contains_iff_mem.2 ha)]

theorem breadthFirst_of_not_mem_seen {next : α → List α} {a : α} (ha : a ∉ seen) :
    breadthFirst next (fuel + 1) seen (a :: queue) =
      a :: breadthFirst next fuel (a :: seen) (queue ++ next a) := by
  have hne : ¬ seen.contains a = true := fun h => ha (List.contains_iff_mem.1 h)
  simp only [breadthFirst, List.dropWhile_cons_of_neg hne]

/-- What is left in the queue, and the edges from vertices that were not visited, bound the rounds. -/
theorem spread?_eq_breadthFirst (hl : ∀ x ∈ l, x.2 ∈ vertices) (hq : queue ⊆ vertices)
    (hf : Fuelled vertices seen (fuel + 1))
    (hrounds : queue.length + (l.without seen []).length < rounds) :
    spread? l.targets rounds seen queue = some (breadthFirst l.targets fuel seen queue) := by
  induction rounds generalizing fuel seen queue with
  | zero => omega
  | succ rounds ih =>
    cases queue with
    | nil => cases fuel <;> rfl
    | cons a queue =>
      obtain ⟨ha, hq⟩ := List.cons_subset.1 hq
      rw [List.length_cons] at hrounds
      by_cases hseen : a ∈ seen
      · rw [spread?, if_pos (List.contains_iff_mem.2 hseen), breadthFirst_of_mem_seen hseen]
        exact ih hq hf (by omega)
      · have hf' := hf.cons hseen ha
        obtain ⟨fuel, rfl⟩ := Nat.exists_eq_succ_of_ne_zero hf'.fuel_ne_zero
        have hq' : queue ++ l.targets a ⊆ vertices :=
          List.append_subset.2 ⟨hq, fun b hb => hl _ (Arrows.mem_targets.1 hb)⟩
        have hlength := Arrows.length_without_cons (l := l) hseen
        rw [spread?, if_neg (by simpa using hseen), breadthFirst_of_not_mem_seen hseen,
          ih hq' hf' (by rw [List.length_append]; omega)]
        rfl

end Graph

namespace Hierarchy
open Relation
variable {h : Hierarchy} {c p : ClassId} {n rounds : Nat} {ids : List ClassId}

/-! ### The way up -/

/-- The class that a number of steps to superclasses leads to. -/
def ancestor? (h : Hierarchy) : Nat → ClassId → Option ClassId
  | 0, c => some c
  | n + 1, c => (h.parent? c).bind (h.ancestor? n)

theorem ancestor?_succ (n : Nat) (c : ClassId) :
    h.ancestor? (n + 1) c = (h.ancestor? n c).bind h.parent? := by
  induction n generalizing c with
  | zero =>
    rw [ancestor?, ancestor?, Option.bind_some]
    exact Option.bind_fun_some _
  | succ n ih =>
    rw [ancestor?]
    cases hp : h.parent? c with
    | none => rw [ancestor?, hp]; rfl
    | some p => rw [ancestor?, hp]; exact ih p

theorem superclasses_of_top (hp : h.parent? c = none) : h.superclasses c = [] := by
  unfold superclasses
  cases h.parents.outward.length with
  | zero => rfl
  | succ fuel => simp only [Graph.chain, hp]

theorem Over.superclasses_subset (ho : h.Over ids) (ha : h.Acyclic) : h.superclasses c ⊆ ids := by
  intro a hmem
  obtain ⟨b, -, hba⟩ := TransGen.tail'_iff.1 (ha.mem_superclasses_iff.1 hmem)
  exact (ho.mem_of_edge (edge_of_step hba)).2

/-- The steps from a class to its superclasses come to an end within a number of them. -/
structure Walk (h : Hierarchy) (bound : Nat) (c : ClassId) : Prop where
  /-- A class without a superclass is reached. -/
  top : ∃ n ≤ bound, ∃ a, h.ancestor? n c = some a ∧ h.parent? a = none
  /-- No class is met twice, the one where the walk begins included. -/
  once : ∀ i j a, h.ancestor? i c = some a → h.ancestor? j c = some a → i = j
  /-- What is met is listed, step by step. -/
  listed : ∀ n, h.ancestor? (n + 1) c = (h.superclasses c)[n]?
  /-- A loop that remembers nothing is done after that many rounds. -/
  ends : ∀ rounds, bound < rounds → h.superclassesIn? rounds c = some (h.superclasses c)

namespace Acyclic

theorem ancestor?_eq_getElem? (ha : h.Acyclic) (n : Nat) (c : ClassId) :
    h.ancestor? n c = (c :: h.superclasses c)[n]? := by
  induction n generalizing c with
  | zero => rfl
  | succ n ih =>
    rw [ancestor?, List.getElem?_cons_succ]
    cases hp : h.parent? c with
    | none => rw [superclasses_of_top hp]; rfl
    | some p => rw [ha.superclasses_of_parent? hp, Option.bind_some, ih]

theorem nodup_cons_superclasses (ha : h.Acyclic) (c : ClassId) : (c :: h.superclasses c).Nodup := by
  refine (Graph.pairwise_chain h.parent? h.parents.outward.length c).imp fun {a b} hab => ?_
  rintro rfl
  exact ha.not_superclass_self a hab

theorem length_superclasses_le (ha : h.Acyclic) (ho : h.Over ids) :
    (h.superclasses c).length ≤ ids.length := by
  have hnodup := (List.nodup_cons.1 (ha.nodup_cons_superclasses c)).2
  exact (hnodup.subperm (ho.superclasses_subset ha)).length_le

theorem climb?_superclasses (ha : h.Acyclic) (hrounds : (h.superclasses c).length < rounds) :
    Graph.climb? h.parent? rounds c = some (h.superclasses c) := by
  induction rounds generalizing c with
  | zero => omega
  | succ rounds ih =>
    cases hp : h.parent? c with
    | none => rw [Graph.climb?, superclasses_of_top hp]; simp only [hp]
    | some p =>
      rw [ha.superclasses_of_parent? hp] at hrounds ⊢
      have hup := ih (c := p) (by rw [List.length_cons] at hrounds; omega)
      simp only [Graph.climb?, hp, hup, Option.map_some]

theorem climbTo?_superclasses {β : Type} (ha : h.Acyclic) (hit? : ClassId → Option β)
    (hrounds : (h.superclasses c).length < rounds) :
    Graph.climbTo? h.parent? hit? rounds c = some ((h.superclasses c).findSome? hit?) := by
  induction rounds generalizing c with
  | zero => omega
  | succ rounds ih =>
    cases hp : h.parent? c with
    | none => rw [Graph.climbTo?, superclasses_of_top hp]; simp only [hp, List.findSome?_nil]
    | some p =>
      rw [ha.superclasses_of_parent? hp] at hrounds ⊢
      have hup := ih (c := p) (by rw [List.length_cons] at hrounds; omega)
      cases hhit : hit? p with
      | none => simp only [Graph.climbTo?, hp, hhit, hup, List.findSome?_cons]
      | some x => simp only [Graph.climbTo?, hp, hhit, List.findSome?_cons]

theorem walk (ha : h.Acyclic) (ho : h.Over ids) (c : ClassId) : h.Walk ids.length c where
  top := by
    have hlast : (h.superclasses c).length < (c :: h.superclasses c).length := Nat.lt_succ_self _
    have hreached := List.getElem?_eq_getElem hlast
    rw [← ha.ancestor?_eq_getElem?] at hreached
    -- one step further there is nothing
    have hbehind : h.ancestor? ((h.superclasses c).length + 1) c = none := by
      rw [ha.ancestor?_eq_getElem?]
      exact List.getElem?_eq_none (Nat.le_refl _)
    rw [ancestor?_succ, hreached, Option.bind_some] at hbehind
    exact ⟨_, ha.length_superclasses_le ho, _, hreached, hbehind⟩
  once i j a hi hj := by
    rw [ha.ancestor?_eq_getElem?] at hi hj
    have hlt : i < (c :: h.superclasses c).length := (List.getElem?_eq_some_iff.1 hi).1
    exact (List.getElem?_inj hlt (ha.nodup_cons_superclasses c)).1 (hi.trans hj.symm)
  listed n := by rw [ha.ancestor?_eq_getElem?, List.getElem?_cons_succ]
  ends rounds hrounds := by
    have hlength := ha.length_superclasses_le ho (c := c)
    exact ha.climb?_superclasses (by omega)

end Acyclic

/-! ### Searches of the hierarchy -/

/-- The interfaces named by classes that are listed once. -/
theorem length_flatMap_interfacesOf_le {cs : List ClassId} (hcs : cs.Nodup) :
    (cs.flatMap h.interfacesOf).length ≤ h.interfaces.outward.length := by
  have hsum : (cs.flatMap h.interfacesOf).length + (h.interfaces.outward.without cs []).length =
      h.interfaces.outward.length := by
    induction cs with
    | nil => rw [Arrows.without_nil]; simp
    | cons c cs ih =>
      obtain ⟨hc, hcs⟩ := List.nodup_cons.1 hcs
      have hnames : ((h.interfacesOf c).length + (h.interfaces.outward.without (c :: cs) []).length) =
          (h.interfaces.outward.without cs []).length := Arrows.length_without_cons hc
      have := ih hcs
      rw [List.flatMap_cons, List.length_append]
      omega
  omega

theorem interfacesFromIn?_flatMap {cs : List ClassId} (hcs : cs.Nodup)
    (hrounds : 2 * h.interfaces.outward.length < rounds) :
    h.interfacesFromIn? rounds (cs.flatMap h.interfacesOf) =
      some (h.interfacesFrom (cs.flatMap h.interfacesOf)) := by
  have hqueue : cs.flatMap h.interfacesOf ⊆ h.interfaces.outward.map (·.2) := by
    intro i hi
    obtain ⟨c, -, hci⟩ := List.mem_flatMap.1 hi
    exact List.mem_map.2 ⟨(c, i), mem_interfaces_of_edge hci, rfl⟩
  have hfuel : Graph.Fuelled (h.interfaces.outward.map (·.2)) [] (h.interfaces.outward.length + 1) :=
    ⟨List.nodup_nil, List.nil_subset _, by simp⟩
  have hlength := h.length_flatMap_interfacesOf_le hcs
  exact Graph.spread?_eq_breadthFirst (fun x hx => List.mem_map.2 ⟨x, hx, rfl⟩) hqueue hfuel
    (by rw [Arrows.without_nil]; omega)

/-- Rounds enough for every search: one for each class on a way up, and two for each edge to an
interface, which names the interface once and is followed once. -/
def Suffices (h : Hierarchy) (classes rounds : Nat) : Prop :=
  classes + 2 * h.interfaces.outward.length < rounds

section Searches
variable (ha : h.Acyclic) (ho : h.Over ids) (hrounds : h.Suffices ids.length rounds)
include ha ho hrounds

theorem Acyclic.superclassesIn?_eq (c : ClassId) :
    h.superclassesIn? rounds c = some (h.superclasses c) := by
  unfold Suffices at hrounds
  exact (ha.walk ho c).ends rounds (by omega)

theorem Acyclic.climbTo?_eq {β : Type} (hit? : ClassId → Option β) (c : ClassId) :
    Graph.climbTo? h.parent? hit? rounds c = some ((h.superclasses c).findSome? hit?) := by
  have hlength := ha.length_superclasses_le ho (c := c)
  unfold Suffices at hrounds
  exact ha.climbTo?_superclasses hit? (by omega)

theorem Acyclic.superinterfacesIn?_eq (c : ClassId) :
    h.superinterfacesIn? rounds c = some (h.superinterfaces c) := by
  have hup := ha.superclassesIn?_eq ho hrounds c
  unfold Suffices at hrounds
  simp only [superinterfacesIn?, hup, Option.bind_eq_bind, Option.bind_some]
  exact interfacesFromIn?_flatMap (ha.nodup_cons_superclasses c) (by omega)

omit ha ho in
theorem ownSuperinterfacesIn?_eq (c : ClassId) :
    h.ownSuperinterfacesIn? rounds c = some (h.ownSuperinterfaces c) := by
  unfold Suffices at hrounds
  have hedges : 2 * h.interfaces.outward.length < rounds := by omega
  have hnames := h.interfacesFromIn?_flatMap (List.nodup_singleton c) hedges
  rw [List.flatMap_singleton] at hnames
  exact hnames

omit ha ho in
theorem isSubinterfaceIn?_eq (sub sup : ClassId) :
    h.isSubinterfaceIn? rounds sub sup = some (h.isSubinterface sub sup) := by
  rw [isSubinterfaceIn?, ownSuperinterfacesIn?_eq hrounds, isSubinterface]
  by_cases he : sub = sup
  · simp [he]
  · simp [he]

theorem Acyclic.isAssignableIn?_eq (sub sup : ClassId) :
    h.isAssignableIn? rounds sub sup = some (h.isAssignable sub sup) := by
  rw [isAssignableIn?, ha.climbTo?_eq ho hrounds, ha.superinterfacesIn?_eq ho hrounds, isAssignable]
  by_cases he : sub = sup
  · simp [he]
  have hmet : ((h.superclasses sub).findSome? fun c => if c = sup then some c else none).isSome =
      (h.superclasses sub).contains sup := by
    rw [Bool.eq_iff_iff, List.findSome?_isSome_iff, List.contains_iff_mem]
    constructor
    · rintro ⟨c, hc, hcs⟩
      split at hcs
      · next hsup => exact hsup ▸ hc
      · cases hcs
    · exact fun hmem => ⟨sup, hmem, by simp⟩
  simp only [he, if_false, Option.bind_eq_bind, Option.bind_some, hmet]
  cases (h.superclasses sub).contains sup <;> simp [he]

end Searches
end Hierarchy

/-! ### Lookups -/

theorem filterM_eq_some {α : Type} {p : α → Option Bool} {q : α → Bool} {l : List α}
    (hp : ∀ x, p x = some (q x)) : l.filterM p = some (l.filter q) := by
  have haux : ∀ acc, l.filterAuxM p acc = some ((l.filter q).reverse ++ acc) := by
    induction l with
    | nil => exact fun acc => rfl
    | cons x l ih =>
      intro acc
      rw [List.filterAuxM, hp, Option.bind_eq_bind, Option.bind_some, ih]
      cases hx : q x <;> simp [hx]
  rw [List.filterM, haux]
  simp

theorem anyM_eq_some {α : Type} {p : α → Option Bool} {q : α → Bool} {l : List α}
    (hp : ∀ x, p x = some (q x)) : l.anyM p = some (l.any q) := by
  obtain rfl : p = fun x => some (q x) := funext hp
  exact List.anyM_pure

namespace Resolver
variable {w : World} {r : Resolver} {rounds : Nat} {ids : List ClassId}

section Lookups
variable (ha : r.hierarchy.Acyclic) (ho : r.hierarchy.Over ids)
  (hrounds : r.hierarchy.Suffices ids.length rounds)
include hrounds

theorem mostSpecificIn?_eq (l : List (Declared MethodEntry)) :
    r.mostSpecificIn? rounds l = some (r.mostSpecific l) := by
  refine filterM_eq_some fun m => ?_
  have hextended := anyM_eq_some (l := l) fun n : Declared MethodEntry =>
    Hierarchy.isSubinterfaceIn?_eq hrounds n.owner m.owner
  rw [hextended]
  rfl

theorem survivorsIn?_eq (l : List (Declared MethodEntry)) :
    r.survivorsIn? rounds l = some (r.survivors l) := by
  rw [survivorsIn?, mostSpecificIn?_eq hrounds, survivors]
  cases r.mostSpecific l <;> rfl

include ha ho

theorem fieldIn?_eq (c : ClassId) (name : MemberName) (t : FieldType) :
    r.fieldIn? rounds c name t = some (r.field? c name t) := by
  rw [fieldIn?, Hierarchy.ownSuperinterfacesIn?_eq hrounds, ha.climbTo?_eq ho hrounds, field?,
    List.cons_append, List.findSome?_cons, List.findSome?_append]
  cases r.declaredField? name t c with
  | some f => rfl
  | none =>
    simp only [Option.bind_eq_bind, Option.bind_some]
    cases (r.hierarchy.ownSuperinterfaces c).findSome? (r.declaredField? name t) <;> rfl

theorem defaultMethodIn?_eq (c : ClassId) (name : MemberName) (d : MethodDescriptor) :
    r.defaultMethodIn? rounds c name d = some (r.defaultMethod? c name d) := by
  have hcandidates : ((r.hierarchy.superinterfaces c).filterMap (r.declaredMethod? name d)).filter
      Declared.isHeritable = r.defaultCandidates c name d := rfl
  rw [defaultMethodIn?, ha.superinterfacesIn?_eq ho hrounds, Option.bind_eq_bind, Option.bind_some,
    hcandidates, defaultMethod?]
  match r.defaultCandidates c name d with
  | [] => rfl
  | [_] => rfl
  | m :: m' :: l =>
    match hl : preferConcrete (m :: m' :: l) with
    | [] => simp only [hl, survivorsIn?_eq hrounds, Option.map_some]
    | [_] => simp only [hl]
    | _ :: _ :: _ => simp only [hl, survivorsIn?_eq hrounds, Option.map_some]

theorem inheritedMethodIn?_eq (c : ClassId) (name : MemberName) (d : MethodDescriptor)
    (throughInterface : Bool) : r.inheritedMethodIn? rounds c name d throughInterface =
      some (r.inheritedMethod? c name d throughInterface) := by
  cases throughInterface with
  | true => rfl
  | false => exact ha.climbTo?_eq ho hrounds _ c

theorem methodIn?_eq (c : ClassId) (name : MemberName) (d : MethodDescriptor)
    (throughInterface : Bool) : r.methodIn? rounds c name d throughInterface =
      some (r.method? c name d throughInterface) := by
  rw [methodIn?, inheritedMethodIn?_eq ha ho hrounds, defaultMethodIn?_eq ha ho hrounds, method?]
  cases r.declaredMethod? name d c with
  | some m => rfl
  | none => cases r.inheritedMethod? c name d throughInterface <;> rfl

theorem fieldOfIn?_eq (ref : FieldRef) : r.fieldOfIn? rounds ref = some (r.fieldOf? ref) := by
  rw [fieldOfIn?, fieldOf?]
  cases r.world.lookup? ref.owner with
  | none => rfl
  | some c => exact fieldIn?_eq ha ho hrounds c ref.name ref.type

theorem methodOfIn?_eq (ref : MethodRef) : r.methodOfIn? rounds ref = some (r.methodOf? ref) := by
  rw [methodOfIn?, methodOf?]
  cases r.world.lookup? ref.owner with
  | none => rfl
  | some c => exact methodIn?_eq ha ho hrounds c ref.name ref.descriptor ref.ownerIsInterface

end Lookups

/-! ### The result -/

/-- Every search of a resolver is done after a number of rounds. -/
structure Finishes (r : Resolver) (rounds : Nat) : Prop where
  superclasses : ∀ c, r.hierarchy.superclassesIn? rounds c = some (r.hierarchy.superclasses c)
  superinterfaces : ∀ c,
    r.hierarchy.superinterfacesIn? rounds c = some (r.hierarchy.superinterfaces c)
  isSubinterface : ∀ sub sup,
    r.hierarchy.isSubinterfaceIn? rounds sub sup = some (r.hierarchy.isSubinterface sub sup)
  isAssignable : ∀ sub sup,
    r.hierarchy.isAssignableIn? rounds sub sup = some (r.hierarchy.isAssignable sub sup)
  field : ∀ c name t, r.fieldIn? rounds c name t = some (r.field? c name t)
  method : ∀ c name d throughInterface,
    r.methodIn? rounds c name d throughInterface = some (r.method? c name d throughInterface)
  defaultMethod : ∀ c name d, r.defaultMethodIn? rounds c name d = some (r.defaultMethod? c name d)
  fieldOf : ∀ ref, r.fieldOfIn? rounds ref = some (r.fieldOf? ref)
  methodOf : ∀ ref, r.methodOfIn? rounds ref = some (r.methodOf? ref)

theorem finishes (ha : r.hierarchy.Acyclic) (ho : r.hierarchy.Over ids)
    (hrounds : r.hierarchy.Suffices ids.length rounds) : r.Finishes rounds where
  superclasses := ha.superclassesIn?_eq ho hrounds
  superinterfaces := ha.superinterfacesIn?_eq ho hrounds
  isSubinterface := Hierarchy.isSubinterfaceIn?_eq hrounds
  isAssignable := ha.isAssignableIn?_eq ho hrounds
  field := fieldIn?_eq ha ho hrounds
  method := methodIn?_eq ha ho hrounds
  defaultMethod := defaultMethodIn?_eq ha ho hrounds
  fieldOf := fieldOfIn?_eq ha ho hrounds
  methodOf := methodOfIn?_eq ha ho hrounds

/-- Whoever holds a resolver can walk up from any class: there are no more steps than classes, no class
is met twice, and every search that follows them is done after a number of rounds that the world gives. -/
theorem superclass_walks_end (h : w.Reachable) (hr : w.resolver = .ok r) :
    (∀ c, r.hierarchy.Walk w.classes.length c) ∧
      ∀ rounds, r.hierarchy.Suffices w.classes.length rounds → r.Finishes rounds := by
  obtain rfl := World.world_of_resolver hr
  have ha : r.hierarchy.Acyclic := h.acyclic r.linked
  have ho : r.hierarchy.Over r.world.ids := h.closed.hierarchy
  have hlength : r.world.ids.length = r.world.classes.length := List.length_map _
  rw [← hlength]
  exact ⟨ha.walk ho, fun _ hrounds => finishes ha ho hrounds⟩

/-- There are six classes with four edges to interfaces. -/
theorem superclass_walks_end_instruments :
    let w := World.ofInstruments
    let r : Resolver := ⟨w, World.linked_ofInstruments⟩
    (w.Reachable ∧ w.resolver = .ok r ∧ r.hierarchy.Suffices w.classes.length 15 ∧
      r.hierarchy.ancestor? 2 ⟨5⟩ = some ⟨3⟩ ∧ r.hierarchy.parent? ⟨3⟩ = none) ∧
      (∀ c, r.hierarchy.Walk w.classes.length c) ∧ r.Finishes 15 := by
  have hsuffices : World.ofInstruments.hierarchy.Suffices World.ofInstruments.classes.length 15 := by
    unfold Hierarchy.Suffices
    decide +kernel
  have hends := superclass_walks_end World.reachable_ofInstruments
    (World.resolver_of_stage World.linked_ofInstruments)
  exact ⟨⟨World.reachable_ofInstruments, World.resolver_of_stage _, hsuffices, by decide +kernel,
    by decide +kernel⟩, hends.1, hends.2 15 hsuffices⟩

end Resolver
end ClosedWorld
