import ClosedWorld.Proofs.World.Linked
import ClosedWorld.Proofs.World.Resolution
import ClosedWorld.Proofs.World.Supertypes
import Mathlib.Data.Set.Insert

/-!
# The default method that a class inherits

What a class could inherit from the interfaces above it is a set (`inheritable`), and so is what each
of the two reductions leaves of it (`concreteFirst`, `maximallySpecific`). The lists that the search
goes through have these sets as their members. As the hierarchy has no cycle, something is left of any
list with a member (`mostSpecific_ne_nil`), and as an interface declares one candidate at most, one
member of what is left is registered before all others (`defaultMethod?_eq_some_iff`).

Abstract methods are dropped before interfaces are compared. So a default method that only abstract
methods redeclare (`reabstracted`) stays in the race against a default method from elsewhere, and wins
if its interface is the earlier one.
-/

namespace ClosedWorld
open Relation

/-! ### Choosing from a list -/

/-- A relation that never returns leaves some member of a list without one above it. -/
theorem exists_mem_unrelated {α : Type} {R : α → α → Prop} (hirrefl : ∀ a, ¬ R a a)
    (htrans : ∀ a b c, R a b → R b c → R a c) {l : List α} (hl : l ≠ []) :
    ∃ m ∈ l, ∀ k ∈ l, ¬ R k m := by
  induction l with
  | nil => exact absurd rfl hl
  | cons a l ih =>
    by_cases hnil : l = []
    · subst hnil
      exact ⟨a, by simp, by simpa using hirrefl a⟩
    obtain ⟨m, hm, hmin⟩ := ih hnil
    by_cases ham : R a m
    · refine ⟨a, by simp, fun k hk hka => ?_⟩
      rcases List.mem_cons.1 hk with rfl | hk
      · exact hirrefl _ hka
      · exact hmin k hk (htrans k a m hka ham)
    · refine ⟨m, by simp [hm], fun k hk => ?_⟩
      rcases List.mem_cons.1 hk with rfl | hk
      · exact ham
      · exact hmin k hk

theorem minOn?_eq_some_iff {α : Type} {key : α → Nat} {l : List α} {a : α}
    (hkey : ∀ x ∈ l, ∀ y ∈ l, key x = key y → x = y) :
    l.minOn? key = some a ↔ a ∈ l ∧ ∀ b ∈ l, b ≠ a → key a < key b := by
  constructor
  · intro h
    have ha := List.minOn?_mem h
    have hl : l ≠ [] := List.ne_nil_of_mem ha
    rw [List.minOn?_eq_some_minOn hl] at h
    refine ⟨ha, fun b hb hne => ?_⟩
    have hle : key a ≤ key b := Option.some.inj h ▸ List.apply_minOn_le_of_mem hb
    exact Nat.lt_of_le_of_ne hle fun e => hne (hkey b hb a ha e.symm)
  · rintro ⟨ha, hmin⟩
    have hl : l ≠ [] := List.ne_nil_of_mem ha
    rw [List.minOn?_eq_some_minOn hl]
    by_contra hne
    have hlt := hmin (l.minOn key hl) List.minOn_mem fun e => hne (congrArg some e)
    exact absurd (List.apply_minOn_le_of_mem ha) (Nat.not_le.2 hlt)

namespace Resolver

/-! ### The candidates and their reductions -/

/-- The first method of its name and descriptor on each interface above the class, unless it is private
or static. -/
def inheritable (r : Resolver) (c : ClassId) (name : MemberName) (d : MethodDescriptor) :
    Set (Declared MethodEntry) :=
  {m | r.hierarchy.Inherits c m.owner ∧ r.declaredMethod? name d m.owner = some m ∧ m.isHeritable}

/-- The methods with a body if there is one, and all of them if not. -/
def concreteFirst (K : Set (Declared MethodEntry)) : Set (Declared MethodEntry) :=
  {m ∈ K | (∃ k ∈ K, k.isConcrete) → m.isConcrete}

/-- The methods whose interface has no subinterface among those of the other methods. -/
def maximallySpecific (r : Resolver) (K : Set (Declared MethodEntry)) : Set (Declared MethodEntry) :=
  {m ∈ K | ∀ k ∈ K, k ≠ m → ¬ r.hierarchy.Subinterface k.owner m.owner}

/-- The methods with a body that subinterfaces redeclare, but only without one. -/
def reabstracted (r : Resolver) (K : Set (Declared MethodEntry)) : Set (Declared MethodEntry) :=
  {k ∈ K | k.isConcrete ∧ (∃ a ∈ K, r.hierarchy.Subinterface a.owner k.owner) ∧
    ∀ a ∈ K, r.hierarchy.Subinterface a.owner k.owner → ¬ a.isConcrete}

variable {r : Resolver} {c : ClassId} {name : MemberName} {d : MethodDescriptor}
variable {m : Declared MethodEntry} {l : List (Declared MethodEntry)}

theorem mem_defaultCandidates_iff (ha : r.hierarchy.Acyclic) :
    m ∈ r.defaultCandidates c name d ↔ m ∈ r.inheritable c name d := by
  simp only [defaultCandidates, List.mem_filter, List.mem_filterMap]
  constructor
  · rintro ⟨⟨i, hi, hm⟩, hheritable⟩
    obtain rfl := owner_of_declaredMethod? hm
    exact ⟨ha.mem_superinterfaces_iff.1 hi, hm, hheritable⟩
  · rintro ⟨hi, hm, hheritable⟩
    exact ⟨⟨m.owner, ha.mem_superinterfaces_iff.2 hi, hm⟩, hheritable⟩

theorem inheritable_eq (ha : r.hierarchy.Acyclic) :
    r.inheritable c name d = {m | m ∈ r.defaultCandidates c name d} :=
  Set.ext fun _ => (mem_defaultCandidates_iff ha).symm

theorem concreteFirst_eq (l : List (Declared MethodEntry)) :
    concreteFirst {m | m ∈ l} = {m | m ∈ preferConcrete l} := by
  refine Set.ext fun m => ?_
  show m ∈ l ∧ ((∃ k ∈ l, k.isConcrete) → m.isConcrete) ↔ m ∈ preferConcrete l
  rw [← List.any_eq_true, preferConcrete]
  split
  · next hany => rw [List.mem_filter, imp_iff_right hany]
  · next hany => exact and_iff_left fun h => absurd h hany

theorem preferConcrete_ne_nil (hl : l ≠ []) : preferConcrete l ≠ [] := by
  unfold preferConcrete
  split
  · next hany =>
    obtain ⟨m, hm, hc⟩ := List.any_eq_true.1 hany
    exact List.ne_nil_of_mem (List.mem_filter.2 ⟨hm, hc⟩)
  · exact hl

theorem mem_mostSpecific_iff (ha : r.hierarchy.Acyclic) : m ∈ r.mostSpecific l ↔
    m ∈ l ∧ ∀ k ∈ l, ¬ r.hierarchy.Subinterface k.owner m.owner := by
  simp only [mostSpecific, List.mem_filter, Bool.not_eq_true', List.any_eq_false,
    ha.isSubinterface_iff]

theorem maximallySpecific_eq (ha : r.hierarchy.Acyclic) (l : List (Declared MethodEntry)) :
    r.maximallySpecific {m | m ∈ l} = {m | m ∈ r.mostSpecific l} := by
  refine Set.ext fun m => ?_
  show (m ∈ l ∧ ∀ k ∈ l, k ≠ m → ¬ r.hierarchy.Subinterface k.owner m.owner) ↔ m ∈ r.mostSpecific l
  rw [mem_mostSpecific_iff ha]
  refine and_congr_right fun _ => forall₂_congr fun k _ => ⟨fun h hkm => ?_, fun h _ => h⟩
  by_cases hne : k = m
  · exact ha.not_subinterface_self _ (hne ▸ hkm)
  · exact h hne hkm

/-- The comparison of interfaces never discards all methods. -/
theorem mostSpecific_ne_nil (ha : r.hierarchy.Acyclic) (hl : l ≠ []) : r.mostSpecific l ≠ [] := by
  obtain ⟨m, hm, hmax⟩ := exists_mem_unrelated
    (R := fun k m : Declared MethodEntry => r.hierarchy.Subinterface k.owner m.owner)
    (fun m => ha.not_subinterface_self m.owner) (fun _ _ _ => TransGen.trans) hl
  exact List.ne_nil_of_mem ((mem_mostSpecific_iff ha).2 ⟨hm, hmax⟩)

/-- What remains of the candidates after both reductions. -/
theorem remaining_eq (ha : r.hierarchy.Acyclic) :
    r.maximallySpecific (concreteFirst (r.inheritable c name d)) =
      {m | m ∈ r.mostSpecific (preferConcrete (r.defaultCandidates c name d))} := by
  rw [inheritable_eq ha, concreteFirst_eq, maximallySpecific_eq ha]

theorem remaining_mem (hm : m ∈ r.maximallySpecific (concreteFirst (r.inheritable c name d))) :
    m ∈ r.inheritable c name d :=
  hm.1.1

theorem preferConcrete_singleton (m : Declared MethodEntry) : preferConcrete [m] = [m] := by
  cases h : m.isConcrete <;> simp [preferConcrete, h]

theorem mostSpecific_singleton (r : Resolver) (m : Declared MethodEntry) :
    r.mostSpecific [m] = [m] := by
  have hself : r.hierarchy.isSubinterface m.owner m.owner = false := by
    simp [Hierarchy.isSubinterface]
  simp [mostSpecific, hself]

theorem survivors_eq (ha : r.hierarchy.Acyclic) (hl : l ≠ []) : r.survivors l = r.mostSpecific l := by
  unfold survivors
  split
  · next h => exact absurd h (mostSpecific_ne_nil ha hl)
  · rfl

/-- A single candidate would survive both reductions as well, and they always leave one. -/
theorem defaultMethod?_eq (ha : r.hierarchy.Acyclic) : r.defaultMethod? c name d =
    (r.mostSpecific (preferConcrete (r.defaultCandidates c name d))).minOn? (·.owner.val) := by
  unfold defaultMethod?
  split
  · next h =>
    rw [h]
    rfl
  · next m h =>
    rw [h, preferConcrete_singleton, mostSpecific_singleton, List.minOn?_singleton]
  · next hnil _ =>
    split
    · next m h => rw [h, mostSpecific_singleton, List.minOn?_singleton]
    · rw [survivors_eq ha (preferConcrete_ne_nil hnil)]

theorem defaultMethod?_eq_none_iff (ha : r.hierarchy.Acyclic) :
    r.defaultMethod? c name d = none ↔ r.inheritable c name d = ∅ := by
  rw [defaultMethod?_eq ha, inheritable_eq ha, Set.eq_empty_iff_forall_notMem]
  show List.minOn? _ _ = none ↔ ∀ m, m ∉ r.defaultCandidates c name d
  rw [← List.eq_nil_iff_forall_not_mem]
  constructor
  · intro h
    by_contra hne
    have hrest := mostSpecific_ne_nil ha (preferConcrete_ne_nil hne)
    rw [List.minOn?_eq_some_minOn hrest] at h
    cases h
  · intro h
    rw [h]
    rfl

theorem defaultMethod?_eq_some_iff (ha : r.hierarchy.Acyclic) :
    r.defaultMethod? c name d = some m ↔
      m ∈ r.maximallySpecific (concreteFirst (r.inheritable c name d)) ∧
        ∀ s ∈ r.maximallySpecific (concreteFirst (r.inheritable c name d)), s ≠ m →
          m.owner.val < s.owner.val := by
  have hmem := fun x (hx : x ∈ r.mostSpecific (preferConcrete (r.defaultCandidates c name d))) =>
    remaining_mem ((Set.ext_iff.1 (remaining_eq ha) x).2 hx)
  rw [defaultMethod?_eq ha, remaining_eq ha]
  refine minOn?_eq_some_iff fun x hx y hy hxy => ?_
  -- an interface declares one candidate only
  obtain ⟨-, hx, -⟩ := hmem x hx
  obtain ⟨-, hy, -⟩ := hmem y hy
  have howner : x.owner = y.owner := by
    rcases hxo : x.owner with ⟨n⟩
    rcases hyo : y.owner with ⟨k⟩
    rw [hxo, hyo] at hxy
    exact congrArg ClassId.mk hxy
  rw [howner, hy] at hx
  exact (Option.some.inj hx).symm

theorem mem_ids_of_inheritable (hm : m ∈ r.inheritable c name d) : m.owner ∈ r.world.ids :=
  (declaredMethod?_declares hm.2.1).mem_ids

theorem exists_defaultMethod? (ha : r.hierarchy.Acyclic) (hm : m ∈ r.inheritable c name d) :
    ∃ k, r.defaultMethod? c name d = some k := by
  refine Option.ne_none_iff_exists'.1 fun hnone => ?_
  rw [(defaultMethod?_eq_none_iff ha).1 hnone] at hm
  exact hm

/-- A method with a body that is maximally specific among all methods stays so without the abstract
ones. What else remains without them are the methods that only abstract ones redeclare. -/
theorem remaining_eq_insert (ha : r.hierarchy.Acyclic) {K : Set (Declared MethodEntry)}
    (hm : {k ∈ r.maximallySpecific K | k.isConcrete} = {m}) :
    r.maximallySpecific (concreteFirst K) = insert m (r.reabstracted K) := by
  obtain ⟨⟨hmK, hmax⟩, hconcrete⟩ : m ∈ {k ∈ r.maximallySpecific K | k.isConcrete} := by
    rw [hm]
    exact Set.mem_singleton m
  have hfirst : ∀ k, k ∈ concreteFirst K ↔ k ∈ K ∧ k.isConcrete := fun k =>
    and_congr_right fun _ => imp_iff_right ⟨m, hmK, hconcrete⟩
  refine Set.ext fun s => ⟨?_, ?_⟩
  · rintro ⟨hs, hsmax⟩
    obtain ⟨hsK, hsc⟩ := (hfirst s).1 hs
    by_cases habove : ∃ a ∈ K, r.hierarchy.Subinterface a.owner s.owner
    · refine .inr ⟨hsK, hsc, habove, fun a haK has hac => ?_⟩
      have hne : a ≠ s := fun e => ha.not_subinterface_self _ (e ▸ has)
      exact hsmax a ((hfirst a).2 ⟨haK, hac⟩) hne has
    · have hsM : s ∈ {k ∈ r.maximallySpecific K | k.isConcrete} :=
        ⟨⟨hsK, fun k hk _ hks => habove ⟨k, hk, hks⟩⟩, hsc⟩
      rw [hm] at hsM
      exact .inl hsM
  · rintro (rfl | ⟨hsK, hsc, -, habstract⟩)
    · exact ⟨(hfirst s).2 ⟨hmK, hconcrete⟩, fun k hk => hmax k ((hfirst k).1 hk).1⟩
    · refine ⟨(hfirst s).2 ⟨hsK, hsc⟩, fun k hk _ hks => ?_⟩
      exact habstract k ((hfirst k).1 hk).1 hks ((hfirst k).1 hk).2

end Resolver

/-! ### Interfaces for drawings -/

namespace World

def drawName : MemberName := ⟨"draw", by decide +kernel⟩

def drawType : MethodDescriptor := ⟨[], none⟩

/-- The method for drawing with some flags besides that it is public. -/
def drawMethod (l : List MethodFlag) : MethodDecl :=
  ⟨drawName, drawType, .ofList (.accPublic :: l), []⟩

/-- An interface with a default method, an interface below it that redeclares the method without a body,
an unrelated interface with a default method, and a class below both of these. -/
def drawings : List ClassDecl :=
  let drawable : ClassName := ⟨"Drawable", by decide +kernel⟩
  let widget : ClassName := ⟨"Widget", by decide +kernel⟩
  let sprite : ClassName := ⟨"Sprite", by decide +kernel⟩
  let button : ClassName := ⟨"Button", by decide +kernel⟩
  [{ ClassHeader.interface drawable with methods := [drawMethod []] },
    { ClassHeader.interface widget with interfaces := [drawable], methods := [drawMethod [.accAbstract]] },
    { ClassHeader.interface sprite with methods := [drawMethod []] },
    { name := button, super? := some .object, interfaces := [widget, sprite],
      flags := .ofList [.accPublic] }]

def ofDrawings : World := (World.empty {}).run (drawings.map .register ++ [.link])

theorem reachable_ofDrawings : ofDrawings.Reachable := ⟨{}, _, rfl⟩

theorem linked_ofDrawings : ofDrawings.stage ≠ .unlinked := by decide +kernel

end World

/-! ### The results -/

namespace Resolver
variable {w : World} {r : Resolver} {c : ClassId} {name : MemberName} {d : MethodDescriptor}
variable {m : Declared MethodEntry}

/-- A class inherits no default method exactly if there is no candidate. If there is one, some remain
after both reductions, and the class inherits the one whose interface was registered first. -/
theorem defaultMethod?_earliest (h : w.Reachable) (hr : w.resolver = .ok r) (c : ClassId)
    (name : MemberName) (d : MethodDescriptor) :
    let K := r.inheritable c name d
    let S := r.maximallySpecific (concreteFirst K)
    (r.defaultMethod? c name d = none ↔ K = ∅) ∧ (K.Nonempty → S.Nonempty) ∧
      ∀ m, r.defaultMethod? c name d = some m ↔
        m ∈ S ∧ ∀ s ∈ S, s ≠ m → m.owner.val < s.owner.val ∧ w.Before m.owner s.owner := by
  intro K S
  obtain rfl := World.world_of_resolver hr
  have ha : r.hierarchy.Acyclic := h.acyclic r.linked
  refine ⟨defaultMethod?_eq_none_iff ha, ?_, fun m => ?_⟩
  · rintro ⟨k, hk⟩
    obtain ⟨m, hm⟩ := exists_defaultMethod? ha hk
    exact ⟨m, ((defaultMethod?_eq_some_iff ha).1 hm).1⟩
  · rw [defaultMethod?_eq_some_iff ha]
    refine and_congr_right fun hm => forall₃_congr fun s hs _ => ⟨fun hlt => ⟨hlt, ?_⟩, And.left⟩
    exact h.wellFormed.before_of_lt (mem_ids_of_inheritable (remaining_mem hm))
      (mem_ids_of_inheritable (remaining_mem hs)) hlt

theorem defaultMethod?_earliest_drawings :
    let w := World.ofDrawings
    let r : Resolver := ⟨w, World.linked_ofDrawings⟩
    let K := r.inheritable ⟨3⟩ World.drawName World.drawType
    let S := r.maximallySpecific (concreteFirst K)
    (w.Reachable ∧ w.resolver = .ok r) ∧
      (r.defaultMethod? ⟨3⟩ World.drawName World.drawType = none ↔ K = ∅) ∧ (K.Nonempty → S.Nonempty) ∧
      ∀ m, r.defaultMethod? ⟨3⟩ World.drawName World.drawType = some m ↔
        m ∈ S ∧ ∀ s ∈ S, s ≠ m → m.owner.val < s.owner.val ∧ w.Before m.owner s.owner :=
  ⟨⟨World.reachable_ofDrawings, World.resolver_of_stage _⟩,
    defaultMethod?_earliest World.reachable_ofDrawings (World.resolver_of_stage _) _ _ _⟩

theorem unique_default_drawings :
    let r : Resolver := ⟨World.ofDrawings, World.linked_ofDrawings⟩
    {k ∈ r.maximallySpecific (r.inheritable ⟨3⟩ World.drawName World.drawType) | k.isConcrete} =
      {⟨⟨2⟩, ⟨2⟩, World.drawMethod []⟩} := by
  intro r
  have ha : r.hierarchy.Acyclic := World.reachable_ofDrawings.acyclic r.linked
  have hlist : (r.mostSpecific (r.defaultCandidates ⟨3⟩ World.drawName World.drawType)).filter
      Declared.isConcrete = [⟨⟨2⟩, ⟨2⟩, World.drawMethod []⟩] := by decide +kernel
  rw [inheritable_eq ha, maximallySpecific_eq ha]
  refine Set.ext fun k => List.mem_filter.symm.trans ?_
  rw [hlist]
  exact List.mem_singleton

/-- If just one of the maximally specific methods has a body, the class inherits it, unless a method that
only abstract ones redeclare comes from an interface that was registered before. -/
theorem defaultMethod?_of_unique_default (h : w.Reachable) (hr : w.resolver = .ok r)
    (hm : {k ∈ r.maximallySpecific (r.inheritable c name d) | k.isConcrete} = {m}) :
    let R := r.reabstracted (r.inheritable c name d)
    ((∀ k ∈ R, ¬ w.Before k.owner m.owner) → r.defaultMethod? c name d = some m) ∧
      ∃ k ∈ insert m R, r.defaultMethod? c name d = some k ∧
        ∀ s ∈ insert m R, s ≠ k → w.Before k.owner s.owner := by
  intro R
  obtain rfl := World.world_of_resolver hr
  have ha : r.hierarchy.Acyclic := h.acyclic r.linked
  have hmK : m ∈ r.inheritable c name d := ((Set.ext_iff.1 hm m).2 rfl).1.1
  obtain ⟨k, hk⟩ := exists_defaultMethod? ha hmK
  obtain ⟨hkR, hmin⟩ := (defaultMethod?_eq_some_iff ha).1 hk
  rw [remaining_eq_insert ha hm] at hkR hmin
  have hids : ∀ s ∈ insert m R, s.owner ∈ r.world.ids := by
    rintro s (rfl | hs)
    · exact mem_ids_of_inheritable hmK
    · exact mem_ids_of_inheritable hs.1
  have hbefore : ∀ s ∈ insert m R, s ≠ k → r.world.Before k.owner s.owner := fun s hs hne =>
    h.wellFormed.before_of_lt (hids k hkR) (hids s hs) (hmin s hs hne)
  refine ⟨fun hnone => ?_, k, hkR, hk, hbefore⟩
  by_contra hmiss
  have hne : m ≠ k := fun e => hmiss (e ▸ hk)
  rcases hkR with rfl | hkR
  · exact hne rfl
  · exact hnone k hkR (hbefore m (.inl rfl) hne)

theorem defaultMethod?_of_unique_default_drawings :
    let w := World.ofDrawings
    let r : Resolver := ⟨w, World.linked_ofDrawings⟩
    let m : Declared MethodEntry := ⟨⟨2⟩, ⟨2⟩, World.drawMethod []⟩
    let R := r.reabstracted (r.inheritable ⟨3⟩ World.drawName World.drawType)
    (w.Reachable ∧ w.resolver = .ok r ∧
      {k ∈ r.maximallySpecific (r.inheritable ⟨3⟩ World.drawName World.drawType) | k.isConcrete} =
        {m}) ∧
      ((∀ k ∈ R, ¬ w.Before k.owner m.owner) →
        r.defaultMethod? ⟨3⟩ World.drawName World.drawType = some m) ∧
      ∃ k ∈ insert m R, r.defaultMethod? ⟨3⟩ World.drawName World.drawType = some k ∧
        ∀ s ∈ insert m R, s ≠ k → w.Before k.owner s.owner :=
  ⟨⟨World.reachable_ofDrawings, World.resolver_of_stage _, unique_default_drawings⟩,
    defaultMethod?_of_unique_default World.reachable_ofDrawings (World.resolver_of_stage _)
      unique_default_drawings⟩

/-- Of the methods that are maximally specific for the button only that of the sprite has a body, but the
button inherits the one that the widget redeclares without a body. -/
theorem reabstracted_default_inherited :
    let w := World.ofDrawings
    let r : Resolver := ⟨w, World.linked_ofDrawings⟩
    (w.Reachable ∧ w.resolver = .ok r ∧
      {k ∈ r.maximallySpecific (r.inheritable ⟨3⟩ World.drawName World.drawType) | k.isConcrete} =
        {⟨⟨2⟩, ⟨2⟩, World.drawMethod []⟩}) ∧
      r.defaultMethod? ⟨3⟩ World.drawName World.drawType ≠ some ⟨⟨2⟩, ⟨2⟩, World.drawMethod []⟩ :=
  ⟨⟨World.reachable_ofDrawings, World.resolver_of_stage _, unique_default_drawings⟩,
    by decide +kernel⟩

end Resolver
end ClosedWorld
