import ClosedWorld.Proofs.World.Linking
import ClosedWorld.World.History

/-!
# What a change can do

A change of a well formed world makes a few of six moves, or none (`moves_apply`): it removes a class,
adds one under a free name, exchanges a body, drops what was derived, links or indexes. So a property
that the empty worlds have and that every move keeps holds of all reachable worlds (`Reachable.induct`).
-/

namespace ClosedWorld.World
open Relation
variable {w w' : World}

def indexed (w : World) (h : w.stage ≠ .unlinked) : World :=
  { w with references := .ofFindings (Resolver.findings ⟨w, h⟩), stage := .indexed }

theorem stage_indexed_ne (h : w.stage ≠ .unlinked) : (w.indexed h).stage ≠ .unlinked :=
  fun h => by cases h

inductive Move (w : World) : World → Prop
  | remove {c : ClassEntry} (hc : c ∈ w.classes) : Move w (w.remove c)
  | insert {d : ClassDecl} (hd : w.lookup? d.name = none) : Move w (w.insert d)
  | withBody {id : MethodId} {body : Body} (hm : id ∈ w.methodIds) : Move w (w.withBody id body)
  | dropDerived : Move w w.dropDerived
  | link (ha : w.declaredHierarchy.Acyclic) : Move w w.linked
  | index (hs : w.stage ≠ .unlinked) : Move w (w.indexed hs)

theorem WellFormed.move (hw : w.WellFormed) (h : Move w w') : w'.WellFormed := by
  cases h with
  | remove hc => exact hw.remove _
  | insert hd => exact hw.insert hd
  | withBody hm => exact hw.withBody _ _
  | dropDerived => exact hw.congr rfl rfl
  | link ha => exact hw.congr rfl rfl
  | index hs => exact hw.congr rfl rfl

theorem WellFormed.moves (hw : w.WellFormed) (h : ReflTransGen Move w w') : w'.WellFormed := by
  induction h with
  | refl => exact hw
  | tail _ h ih => exact ih.move h

/-! ### Every change is made of moves -/

theorem resolver_of_stage (hs : w.stage ≠ .unlinked) : w.resolver = .ok ⟨w, hs⟩ := by
  simp only [resolver, hs, ↓reduceDIte]

theorem world_of_resolver {r : Resolver} (hr : w.resolver = .ok r) : r.world = w := by
  unfold resolver at hr
  split at hr
  · cases hr
  · cases hr
    rfl

theorem index_of_stage (hs : w.stage ≠ .unlinked) :
    w.index = (.ok (.ofFindings (Resolver.findings ⟨w, hs⟩)), w.indexed hs) := by
  simp only [index, resolver_of_stage hs]
  rfl

theorem index_of_unlinked (hs : w.stage = .unlinked) : w.index = (.error .notLinked, w) := by
  simp only [index, resolver, hs, ↓reduceDIte]

theorem moves_unregister (hw : w.WellFormed) (id : ClassId) :
    ReflTransGen Move w (w.unregister id).2 := by
  rcases w.unregister_snd id with h | ⟨c, hc, h⟩
  · rw [h]
  · rw [h]
    exact .single (.remove (hw.class?_eq_some_iff.1 hc).1)

theorem moves_unregisterNamed (hw : w.WellFormed) (name : ClassName) :
    ReflTransGen Move w (w.unregisterNamed name).2 := by
  cases h : w.lookup? name with
  | none => rw [unregisterNamed_of_unknown h]
  | some id => rw [unregisterNamed_of_lookup? h]; exact moves_unregister hw id

theorem lookup?_unregisterNamed (hw : w.WellFormed) (name : ClassName) :
    (w.unregisterNamed name).2.lookup? name = none := by
  cases h : w.lookup? name with
  | none => rw [unregisterNamed_of_unknown h]; exact h
  | some id =>
    obtain ⟨c, hc, rfl, rfl⟩ := hw.lookup?_eq_some_iff.1 h
    rw [unregisterNamed_of_lookup? h, unregister_of_class? (hw.class?_eq_some_iff.2 ⟨hc, rfl⟩)]
    exact hw.lookup?_remove_self hc

theorem moves_link (hw : w.WellFormed) : ReflTransGen Move w w.link.2 := by
  by_cases ha : w.declaredHierarchy.Acyclic
  · rw [link_of_acyclic hw ha]
    exact .single (.link ha)
  · obtain ⟨c, -, -, h⟩ := link_of_cyclic hw ha
    rw [h]
    exact .single .dropDerived

theorem moves_index (w : World) : ReflTransGen Move w w.index.2 := by
  by_cases hs : w.stage = .unlinked
  · rw [index_of_unlinked hs]
  · rw [index_of_stage hs]
    exact .single (.index hs)

theorem moves_setBody? (w : World) (id : MethodId) (body : Body) :
    ReflTransGen Move w ((w.setBody? id body).getD w) := by
  cases h : w.setBody? id body with
  | none => exact .refl
  | some w' =>
    obtain ⟨hm, rfl⟩ := setBody?_eq_some_iff.1 h
    obtain ⟨x, hx⟩ := Option.isSome_iff_exists.1 hm
    have hid : x.2.id = id := by simpa using List.find?_some hx
    exact .single (.withBody (mem_methodIds.2 ⟨x, List.mem_of_find?_eq_some hx, hid⟩))

theorem moves_apply (hw : w.WellFormed) (x : Change) : ReflTransGen Move w (w.apply x) := by
  cases x with
  | register d =>
    show ReflTransGen Move w (w.register d).2
    rw [register_snd]
    exact (moves_unregisterNamed hw d.name).tail (.insert (lookup?_unregisterNamed hw d.name))
  | unregister id => exact moves_unregister hw id
  | unregisterNamed name => exact moves_unregisterNamed hw name
  | setBody id body => exact moves_setBody? w id body
  | link => exact moves_link hw
  | index => exact moves_index w
  | linkAndIndex =>
    show ReflTransGen Move w w.linkAndIndex.2
    have hl := moves_link hw
    unfold linkAndIndex
    split
    · next h => rw [h] at hl; exact hl
    · next h => rw [h] at hl; exact hl.trans (moves_index _)
  | dropDerived => exact .single .dropDerived

/-! ### Reachable worlds -/

theorem moves_run (hw : w.WellFormed) (l : List Change) : ReflTransGen Move w (w.run l) := by
  induction l generalizing w with
  | nil => exact .refl
  | cons x l ih =>
    have hx := moves_apply hw x
    exact hx.trans (ih (hw.moves hx))

theorem Reachable.moves (h : w.Reachable) : ∃ s, ReflTransGen Move (World.empty s) w := by
  obtain ⟨s, l, rfl⟩ := h
  exact ⟨s, moves_run (.empty s) l⟩

theorem Reachable.wellFormed (h : w.Reachable) : w.WellFormed := by
  obtain ⟨s, hm⟩ := h.moves
  exact (WellFormed.empty s).moves hm

/-- What the empty worlds are and every move keeps, all reachable worlds are. -/
@[elab_as_elim]
theorem Reachable.induct {P : World → Prop} (h : w.Reachable) (empty : ∀ s, P (World.empty s))
    (move : ∀ w w', w.WellFormed → P w → Move w w' → P w') : P w := by
  obtain ⟨s, hm⟩ := h.moves
  clear h
  induction hm with
  | refl => exact empty s
  | tail hm h ih => exact move _ _ ((WellFormed.empty s).moves hm) ih h

theorem Reachable.apply (h : w.Reachable) (x : Change) : (w.apply x).Reachable := by
  obtain ⟨s, l, rfl⟩ := h
  exact ⟨s, l ++ [x], by rw [run, run, List.foldl_append]; rfl⟩

/-! ### Small worlds -/

/-- An interface, a class that names it twice, and a subclass that names it as well. The bodies call the
method of the interface, read a field of the class, make an instance of it and load a string. -/
def shapes : List ClassDecl :=
  let shape : ClassName := ⟨"Shape", by decide +kernel⟩
  let square : ClassName := ⟨"Square", by decide +kernel⟩
  let tile : ClassName := ⟨"Tile", by decide +kernel⟩
  let side : MemberName := ⟨"side", by decide +kernel⟩
  let area : MemberName := ⟨"area", by decide +kernel⟩
  let number : MethodDescriptor := ⟨[], some (.base .int)⟩
  let body : Body :=
    [⟨⟨0⟩, .invoke .interfaceCall ⟨shape, area, number, true⟩⟩,
      ⟨⟨1⟩, .field .getField ⟨square, side, .object square⟩⟩,
      ⟨⟨2⟩, .new square⟩, ⟨⟨3⟩, .ldc (.string "square")⟩]
  let method : MethodDecl := ⟨area, number, .ofList [.accPublic], body⟩
  [{ ClassHeader.interface shape with
      methods := [⟨area, number, .ofList [.accPublic, .accAbstract], []⟩] },
    { name := square, super? := some .object, interfaces := [shape, shape],
      flags := .ofList [.accPublic], methods := [method],
      fields := [⟨side, .object square, .ofList [.accPublic]⟩] },
    { name := tile, super? := some square, interfaces := [shape],
      flags := .ofList [.accPublic], methods := [method] }]

/-- The world of the shapes after some more changes. -/
def ofShapes (l : List Change) : World := (World.empty {}).run (shapes.map .register ++ l)

theorem reachable_ofShapes (l : List Change) : (ofShapes l).Reachable := ⟨{}, _, rfl⟩

end ClosedWorld.World
