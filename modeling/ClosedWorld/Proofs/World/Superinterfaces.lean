import ClosedWorld.Proofs.Graph.Layers
import ClosedWorld.Proofs.World.Linked
import ClosedWorld.Proofs.World.Supertypes
import Mathlib.Order.Lattice.Nat

/-!
# Superinterfaces, nearest first

The superinterfaces of a class are what one or more interface edges lead to from the class or one of its
superclasses, each listed once. Those that fewer edges lead to come first (`Hierarchy.distance`), and of
those that are named directly, what a class names comes before what only a class further up names
(`Hierarchy.NearestFirst`). The interfaces of one class alone order the interfaces strictly
(`Hierarchy.SubinterfaceOrder`).
-/

namespace ClosedWorld

namespace Hierarchy
open Relation
variable {h : Hierarchy} {a b c i j : ClassId} {n : ℕ}

/-! ### How far up an interface is -/

/-- That many interface edges, one at least, lead to the interface from the class or one of its
superclasses. -/
def Ascent (h : Hierarchy) (c : ClassId) (n : ℕ) (i : ClassId) : Prop :=
  0 < n ∧ ∃ a, ReflTransGen (Graph.Step h.parent?) c a ∧ Graph.Walk h.interfacesOf n a i

/-- The least number of interface edges that lead to the interface from the class or one of its
superclasses. -/
noncomputable def distance (h : Hierarchy) (c i : ClassId) : ℕ := sInf {n | h.Ascent c n i}

theorem inherits_iff_exists_ascent : h.Inherits c i ↔ ∃ n, h.Ascent c n i := by
  constructor
  · rintro ⟨a, hca, hai⟩
    obtain ⟨q, haq, hqi⟩ := TransGen.head'_iff.1 hai
    obtain ⟨n, hn⟩ := Graph.reflTransGen_iff_exists_walk.1 hqi
    exact ⟨n + 1, Nat.succ_pos n, a, hca, .head haq hn⟩
  · rintro ⟨n, hpos, a, hca, hai⟩
    obtain ⟨n, rfl⟩ := Nat.exists_eq_succ_of_ne_zero hpos.ne'
    obtain ⟨q, haq, hqi⟩ := hai.exists_head
    exact ⟨a, hca, .head' haq (Graph.reflTransGen_iff_exists_walk.2 ⟨n, hqi⟩)⟩

theorem Inherits.ascent_distance (hi : h.Inherits c i) : h.Ascent c (h.distance c i) i :=
  Nat.sInf_mem (inherits_iff_exists_ascent.1 hi)

theorem Ascent.distance_le (ha : h.Ascent c n i) : h.distance c i ≤ n := Nat.sInf_le ha

/-- The first edge leads to an interface that the class or a superclass names. -/
theorem Acyclic.ascent_succ_iff (ha : h.Acyclic) : h.Ascent c (n + 1) i ↔
    Graph.InLayer h.interfacesOf ((c :: h.superclasses c).flatMap h.interfacesOf) n i := by
  constructor
  · rintro ⟨-, a, hca, hai⟩
    obtain ⟨q, haq, hqi⟩ := hai.exists_head
    exact ⟨q, ha.mem_named_iff.2 ⟨a, hca, haq⟩, hqi⟩
  · rintro ⟨q, hq, hqi⟩
    obtain ⟨a, hca, haq⟩ := ha.mem_named_iff.1 hq
    exact ⟨Nat.succ_pos n, a, hca, hqi.head haq⟩

/-! ### The list of superinterfaces -/

/-- A list has the interfaces of a class and of its superclasses, nearest first. -/
structure NearestFirst (h : Hierarchy) (c : ClassId) (l : List ClassId) : Prop where
  nodup : l.Nodup
  mem_iff : ∀ i, i ∈ l ↔ h.Inherits c i
  /-- The number of edges that is least is one that leads there. -/
  ascent : ∀ i ∈ l, h.Ascent c (h.distance c i) i
  distance_le : l.Pairwise fun i j => h.distance c i ≤ h.distance c j
  /-- What comes before an interface that a class names is named by that class or one closer to `c`. -/
  named : l.Pairwise fun i j => ∀ b, ReflTransGen (Graph.Step h.parent?) c b →
    Graph.Edge h.interfacesOf b j →
      ∃ a, ReflTransGen (Graph.Step h.parent?) c a ∧ ReflTransGen (Graph.Step h.parent?) a b ∧
        Graph.Edge h.interfacesOf a i

theorem Acyclic.pairwise_distance (ha : h.Acyclic) (c : ClassId) :
    (h.superinterfaces c).Pairwise fun i j => h.distance c i ≤ h.distance c j := by
  refine (Graph.pairwise_layers_breadthFirst _ _ _).imp_of_mem fun {i j} _ hj hij => ?_
  obtain ⟨hpos, hdistance⟩ := (ha.mem_superinterfaces_iff.1 hj).ascent_distance
  obtain ⟨m, hm⟩ := Nat.exists_eq_succ_of_ne_zero hpos.ne'
  rw [hm] at hdistance ⊢
  obtain ⟨k, hkm, hk⟩ := hij m (ha.ascent_succ_iff.1 ⟨Nat.succ_pos m, hdistance⟩)
  exact (ha.ascent_succ_iff.2 hk).distance_le.trans (Nat.succ_le_succ hkm)

theorem Acyclic.pairwise_named (ha : h.Acyclic) (c : ClassId) :
    (h.superinterfaces c).Pairwise fun i j => ∀ b, ReflTransGen (Graph.Step h.parent?) c b →
      Graph.Edge h.interfacesOf b j →
        ∃ a, ReflTransGen (Graph.Step h.parent?) c a ∧ ReflTransGen (Graph.Step h.parent?) a b ∧
          Graph.Edge h.interfacesOf a i := by
  refine (Graph.pairwise_queue_breadthFirst _ _ _ _).imp fun {i j} hij b hcb hbj => ?_
  obtain ⟨up, further, hchain⟩ := List.append_of_mem (ha.mem_cons_superclasses_iff.2 hcb)
  obtain ⟨front, back, hnames⟩ := List.append_of_mem hbj
  -- the queue up to the place where `b` names `j`
  have hi : i ∈ up.flatMap h.interfacesOf ++ front := by
    refine hij _ (back ++ further.flatMap h.interfacesOf) ?_
    rw [hchain, List.flatMap_append, List.flatMap_cons, hnames]
    simp only [List.append_assoc, List.cons_append]
  rcases List.mem_append.1 hi with hi | hi
  · obtain ⟨a, ha_up, hai⟩ := List.mem_flatMap.1 hi
    have horder : (up ++ b :: further).Pairwise (TransGen (Graph.Step h.parent?)) :=
      hchain ▸ Graph.pairwise_chain _ _ _
    have hab := (List.pairwise_append.1 horder).2.2 a ha_up b List.mem_cons_self
    have hca := ha.mem_cons_superclasses_iff.1 (hchain ▸ List.mem_append_left _ ha_up)
    exact ⟨a, hca, hab.to_reflTransGen, hai⟩
  · have hbi : i ∈ h.interfacesOf b := hnames ▸ List.mem_append_left _ hi
    exact ⟨b, hcb, .refl, hbi⟩

theorem Acyclic.nearestFirst (ha : h.Acyclic) (c : ClassId) :
    h.NearestFirst c (h.superinterfaces c) where
  nodup := h.nodup_superinterfaces c
  mem_iff _ := ha.mem_superinterfaces_iff
  ascent _ hi := (ha.mem_superinterfaces_iff.1 hi).ascent_distance
  distance_le := ha.pairwise_distance c
  named := ha.pairwise_named c

/-! ### The order of interfaces -/

/-- How interfaces are ordered by the test whether one extends the other. -/
structure SubinterfaceOrder (h : Hierarchy) : Prop where
  iff_subinterface : ∀ a b, h.isSubinterface a b = true ↔ h.Subinterface a b
  irrefl : ∀ a, h.isSubinterface a a = false
  asymm : ∀ a b, h.isSubinterface a b = true → h.isSubinterface b a = false
  trans : ∀ a b c, h.isSubinterface a b = true → h.isSubinterface b c = true →
    h.isSubinterface a c = true

theorem Acyclic.subinterfaceOrder (ha : h.Acyclic) : h.SubinterfaceOrder where
  iff_subinterface _ _ := ha.isSubinterface_iff
  irrefl a := Bool.eq_false_iff.2 fun haa =>
    ha.not_subinterface_self a (ha.isSubinterface_iff.1 haa)
  asymm a _ hab := Bool.eq_false_iff.2 fun hba =>
    ha.not_subinterface_self a ((ha.isSubinterface_iff.1 hab).trans (ha.isSubinterface_iff.1 hba))
  trans _ _ _ hab hbc :=
    ha.isSubinterface_iff.2 ((ha.isSubinterface_iff.1 hab).trans (ha.isSubinterface_iff.1 hbc))

end Hierarchy

/-! ### Instruments -/

namespace World

def playName : MemberName := ⟨"play", by decide +kernel⟩

def playType : MethodDescriptor := ⟨[], none⟩

def playMethod : MethodDecl := ⟨playName, playType, .ofList [.accPublic], []⟩

/-- An interface with a default method, an interface below it and one beside it. The first class has the
method as well and is portable. The class below it is strung, and the one below that is portable anew. -/
def instruments : List ClassDecl :=
  let playable : ClassName := ⟨"Playable", by decide +kernel⟩
  let strung : ClassName := ⟨"Strung", by decide +kernel⟩
  let portable : ClassName := ⟨"Portable", by decide +kernel⟩
  let instrument : ClassName := ⟨"Instrument", by decide +kernel⟩
  let lute : ClassName := ⟨"Lute", by decide +kernel⟩
  let mandolin : ClassName := ⟨"Mandolin", by decide +kernel⟩
  [{ ClassHeader.interface playable with methods := [playMethod] },
    { toClassHeader := { ClassHeader.interface strung with interfaces := [playable] } },
    { toClassHeader := .interface portable },
    { name := instrument, super? := some .object, interfaces := [portable],
      flags := .ofList [.accPublic], methods := [playMethod] },
    { name := lute, super? := some instrument, interfaces := [strung],
      flags := .ofList [.accPublic] },
    { name := mandolin, super? := some lute, interfaces := [portable],
      flags := .ofList [.accPublic] }]

def ofInstruments : World := (World.empty {}).run (instruments.map .register ++ [.link])

theorem reachable_ofInstruments : ofInstruments.Reachable := ⟨{}, _, rfl⟩

theorem linked_ofInstruments : ofInstruments.stage ≠ .unlinked := by decide +kernel

end World

/-! ### The result -/

namespace Resolver
variable {w : World} {r : Resolver}

/-- The interfaces of a class and its superclasses are listed once each, nearest first, and the test
whether one interface extends the other is a strict order. -/
theorem superinterfaces_nearest_first (h : w.Reachable) (hr : w.resolver = .ok r) :
    (∀ c, r.hierarchy.NearestFirst c (r.hierarchy.superinterfaces c)) ∧
      r.hierarchy.SubinterfaceOrder := by
  obtain rfl := World.world_of_resolver hr
  have ha : r.hierarchy.Acyclic := h.acyclic r.linked
  exact ⟨ha.nearestFirst, ha.subinterfaceOrder⟩

/-- The mandolin is portable and strung before it is playable. -/
theorem superinterfaces_nearest_first_instruments :
    let w := World.ofInstruments
    let r : Resolver := ⟨w, World.linked_ofInstruments⟩
    (w.Reachable ∧ w.resolver = .ok r ∧
      r.hierarchy.superinterfaces ⟨5⟩ = [⟨2⟩, ⟨1⟩, ⟨0⟩]) ∧
      (∀ c, r.hierarchy.NearestFirst c (r.hierarchy.superinterfaces c)) ∧
      r.hierarchy.SubinterfaceOrder :=
  ⟨⟨World.reachable_ofInstruments, World.resolver_of_stage _, by decide +kernel⟩,
    superinterfaces_nearest_first World.reachable_ofInstruments (World.resolver_of_stage _)⟩

end Resolver
end ClosedWorld
