import ClosedWorld.Proofs.World.WellFormed
import ClosedWorld.World.Resolver
import Mathlib.Data.Option.Basic

/-!
# What a resolver can return

Whatever the hierarchy is, every step of a search looks at what registered classes declare
(`declaredMethod?_declares`, `declaredField?_declares`). So what is found is what its owner declares
(`declaredMethod?_of_method?`, `declaredField?_of_field?`), a member of a registered class.
-/

namespace ClosedWorld

/-- The owner is a registered class and has the member. -/
def World.Declares {α : Type} (w : World) (members : ClassEntry → List α) (t : Declared α) : Prop :=
  ∃ c ∈ w.classes, c.id = t.owner ∧ t.member ∈ members c

namespace World.Declares
variable {w : World}

theorem mem_ids {α : Type} {members : ClassEntry → List α} {t : Declared α}
    (h : w.Declares members t) : t.owner ∈ w.ids := by
  obtain ⟨c, hc, hid, -⟩ := h
  exact World.mem_ids.2 ⟨c, hc, hid⟩

theorem mem_methodIds {t : Declared MethodEntry} (h : w.Declares (·.methods) t) :
    t.member.id ∈ w.methodIds := by
  obtain ⟨c, hc, -, hm⟩ := h
  exact World.mem_methodIds.2 ⟨(c, t.member), mem_methods.2 ⟨hc, hm⟩, rfl⟩

theorem mem_fieldIds {t : Declared FieldEntry} (h : w.Declares (·.fields) t) :
    t.member.id ∈ w.fieldIds := by
  obtain ⟨c, hc, -, hm⟩ := h
  exact World.mem_fieldIds.2 ⟨(c, t.member), mem_fields.2 ⟨hc, hm⟩, rfl⟩

end World.Declares

namespace Resolver
variable {r : Resolver} {name : MemberName} {c : ClassId}

section Methods
variable {d : MethodDescriptor} {t : Declared MethodEntry}

theorem declaredMethod?_declares (h : r.declaredMethod? name d c = some t) :
    r.world.Declares (·.methods) t := by
  obtain ⟨m, hm, rfl⟩ := Option.map_eq_some_iff.1 h
  obtain ⟨e, he, hm⟩ := Option.bind_eq_some_iff.1 hm
  have hid : e.id = c := by simpa using List.find?_some he
  exact ⟨e, List.mem_of_find?_eq_some he, hid, List.mem_of_find?_eq_some hm⟩

theorem owner_of_declaredMethod? (h : r.declaredMethod? name d c = some t) : t.owner = c := by
  obtain ⟨m, -, rfl⟩ := Option.map_eq_some_iff.1 h
  rfl

theorem declaredMethod?_of_inheritedMethod? {throughInterface : Bool}
    (h : r.inheritedMethod? c name d throughInterface = some t) :
    r.declaredMethod? name d t.owner = some t := by
  unfold inheritedMethod? at h
  split at h
  · obtain ⟨h, -⟩ := Option.filter_eq_some_iff.1 h
    obtain ⟨p, -, h⟩ := Option.bind_eq_some_iff.1 h
    rwa [owner_of_declaredMethod? h]
  · obtain ⟨a, -, h⟩ := List.exists_of_findSome?_eq_some h
    rwa [owner_of_declaredMethod? h]

theorem declaredMethod?_of_mem_defaultCandidates (h : t ∈ r.defaultCandidates c name d) :
    r.declaredMethod? name d t.owner = some t := by
  obtain ⟨i, -, h⟩ := List.mem_filterMap.1 (List.mem_of_mem_filter h)
  rwa [owner_of_declaredMethod? h]

theorem preferConcrete_subset (l : List (Declared MethodEntry)) : preferConcrete l ⊆ l := by
  unfold preferConcrete
  split
  · exact List.filter_subset_self _
  · exact List.Subset.refl _

theorem survivors_subset (l : List (Declared MethodEntry)) : r.survivors l ⊆ l := by
  unfold survivors
  split
  · exact List.Subset.refl _
  · exact List.filter_subset_self _

theorem mem_of_defaultMethod? (h : r.defaultMethod? c name d = some t) :
    t ∈ r.defaultCandidates c name d := by
  unfold defaultMethod? at h
  split at h
  · cases h
  · next m hm =>
    cases h
    rw [hm]
    exact List.mem_singleton_self t
  · split at h
    · next m hm =>
      cases h
      refine preferConcrete_subset _ ?_
      rw [hm]
      exact List.mem_singleton_self t
    · exact preferConcrete_subset _ (survivors_subset _ (List.minOn?_mem h))

/-- What is found is what its owner declares. -/
theorem declaredMethod?_of_method? {throughInterface : Bool}
    (h : r.method? c name d throughInterface = some t) :
    r.declaredMethod? name d t.owner = some t := by
  rcases (Option.orElse_eq_some _ _ _).1 h with h | ⟨-, h⟩
  · rwa [owner_of_declaredMethod? h]
  rcases (Option.orElse_eq_some _ _ _).1 h with h | ⟨-, h⟩
  · exact declaredMethod?_of_inheritedMethod? h
  · exact declaredMethod?_of_mem_defaultCandidates (mem_of_defaultMethod? h)

theorem methodOf?_declares {ref : MethodRef} (h : r.methodOf? ref = some t) :
    r.world.Declares (·.methods) t := by
  obtain ⟨c, -, h⟩ := Option.bind_eq_some_iff.1 h
  exact declaredMethod?_declares (declaredMethod?_of_method? h)

end Methods

section Fields
variable {type : FieldType} {t : Declared FieldEntry}

theorem declaredField?_declares (h : r.declaredField? name type c = some t) :
    r.world.Declares (·.fields) t := by
  obtain ⟨m, hm, rfl⟩ := Option.map_eq_some_iff.1 h
  obtain ⟨e, he, hm⟩ := Option.bind_eq_some_iff.1 hm
  have hid : e.id = c := by simpa using List.find?_some he
  exact ⟨e, List.mem_of_find?_eq_some he, hid, List.mem_of_find?_eq_some hm⟩

theorem owner_of_declaredField? (h : r.declaredField? name type c = some t) : t.owner = c := by
  obtain ⟨f, -, rfl⟩ := Option.map_eq_some_iff.1 h
  rfl

theorem declaredField?_of_field? (h : r.field? c name type = some t) :
    r.declaredField? name type t.owner = some t := by
  obtain ⟨a, -, h⟩ := List.exists_of_findSome?_eq_some h
  rwa [owner_of_declaredField? h]

theorem fieldOf?_declares {ref : FieldRef} (h : r.fieldOf? ref = some t) :
    r.world.Declares (·.fields) t := by
  obtain ⟨c, -, h⟩ := Option.bind_eq_some_iff.1 h
  exact declaredField?_declares (declaredField?_of_field? h)

end Fields
end Resolver
end ClosedWorld
