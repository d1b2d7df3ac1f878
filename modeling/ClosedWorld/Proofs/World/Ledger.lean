import ClosedWorld.Proofs.World.Identifiers

/-!
# The ledger of a world

A ledger is an ordered map from names to declarations: one entry for each class in order of registration,
with the identifiers that it and its members were given, and nothing else. It has the changes and the
questions of a world. What a world declares is a ledger (`World.ledger`), each change of the world is the
change of the ledger (`ledger_apply`), and the answers of the world and of its slots are those of the
ledger (`Ledger.Describes`), after every run.
-/

namespace ClosedWorld

structure Ledger.Entry where
  id : ClassId
  methodIds : List MethodId
  fieldIds : List FieldId
  decl : ClassDecl
deriving DecidableEq

@[ext] structure Ledger where
  entries : List Ledger.Entry := []
  issued : Issued := {}
deriving DecidableEq

namespace Ledger

/-- The entry with another body for one of its methods, if that is one of them. -/
def Entry.withBody (e : Entry) (id : MethodId) (body : Body) : Entry :=
  { e with decl := { e.decl with methods := List.zipWith (fun i m =>
      if i = id then { m with body } else m) e.methodIds e.decl.methods } }

/-! ### Questions -/

def find? (L : Ledger) (id : ClassId) : Option Entry := L.entries.find? (·.id = id)

def named? (L : Ledger) (name : ClassName) : Option Entry := L.entries.find? (·.decl.name = name)

def lookup? (L : Ledger) (name : ClassName) : Option ClassId := (L.named? name).map (·.id)

def ids (L : Ledger) : List ClassId := L.entries.map (·.id)

def decls (L : Ledger) : List ClassDecl := L.entries.map (·.decl)

/-- The first method of a class with a name and a descriptor. -/
def findMethod? (L : Ledger) (c : ClassId) (name : MemberName) (d : MethodDescriptor) :
    Option MethodId :=
  (L.find? c).bind fun e => ((e.methodIds.zip e.decl.methods).find? fun m =>
    m.2.name = name ∧ m.2.descriptor = d).map (·.1)

def findField? (L : Ledger) (c : ClassId) (name : MemberName) (t : FieldType) : Option FieldId :=
  (L.find? c).bind fun e => ((e.fieldIds.zip e.decl.fields).find? fun f =>
    f.2.name = name ∧ f.2.type = t).map (·.1)

/-! ### Changes -/

def unregister (L : Ledger) (id : ClassId) : Option ClassDecl × Ledger :=
  ((L.find? id).map (·.decl), { L with entries := L.entries.filter (·.id != id) })

def unregisterNamed (L : Ledger) (name : ClassName) : Option ClassDecl × Ledger :=
  ((L.named? name).map (·.decl), { L with entries := L.entries.filter (·.decl.name != name) })

def register (L : Ledger) (d : ClassDecl) : ClassId × Ledger :=
  let e : Entry :=
    { id := ⟨L.issued.classes⟩
      methodIds := (List.range' L.issued.methods d.methods.length).map .mk
      fieldIds := (List.range' L.issued.fields d.fields.length).map .mk
      decl := d }
  (e.id,
    { entries := L.entries.filter (·.decl.name != d.name) ++ [e]
      issued := ⟨L.issued.classes + 1, L.issued.methods + d.methods.length,
        L.issued.fields + d.fields.length⟩ })

def setBody? (L : Ledger) (id : MethodId) (body : Body) : Option Ledger :=
  if ∃ e ∈ L.entries, id ∈ e.methodIds then
    some { L with entries := L.entries.map (·.withBody id body) }
  else none

def apply (L : Ledger) : Change → Ledger
  | .register d => (L.register d).2
  | .unregister id => (L.unregister id).2
  | .unregisterNamed name => (L.unregisterNamed name).2
  | .setBody id body => (L.setBody? id body).getD L
  | .link | .index | .linkAndIndex | .dropDerived => L

def run (L : Ledger) (l : List Change) : Ledger := l.foldl apply L

end Ledger

/-! ### What a world declares -/

def ClassEntry.record (c : ClassEntry) : Ledger.Entry := ⟨c.id, c.methodIds, c.fieldIds, c.decl⟩

def World.ledger (w : World) : Ledger := ⟨w.classes.map (·.record), w.issued⟩

namespace World
open Ledger
variable {w : World}

theorem ledger_congr {w' : World} (h : w'.classes = w.classes ∧ w'.issued = w.issued) :
    w'.ledger = w.ledger := by
  rw [ledger, ledger, h.1, h.2]

theorem ledger_find? (id : ClassId) : w.ledger.find? id = (w.class? id).map (·.record) := by
  simp only [Ledger.find?, ledger, class?, List.find?_map]
  rfl

theorem ledger_named? (name : ClassName) : w.ledger.named? name = (w.named? name).map (·.record) := by
  simp only [Ledger.named?, ledger, World.named?, List.find?_map]
  rfl

theorem ledger_lookup? (name : ClassName) : w.ledger.lookup? name = w.lookup? name := by
  rw [Ledger.lookup?, ledger_named?, World.lookup?, Option.map_map]
  rfl

theorem ledger_unregister (w : World) (id : ClassId) :
    w.ledger.unregister id = ((w.unregister id).1, (w.unregister id).2.ledger) := by
  refine Prod.ext ?_ ?_
  · show (w.ledger.find? id).map _ = _
    rw [ledger_find?, Option.map_map]
    cases h : w.class? id with
    | none => simp [World.unregister, h]
    | some c => rw [unregister_of_class? h]; rfl
  · simp only [Ledger.unregister, ledger, unregister_classes, unregister_issued, List.filter_map]
    rfl

/-- The entry under a name is the only one with its identifier. -/
theorem ledger_unregisterNamed (hw : w.WellFormed) (name : ClassName) :
    w.ledger.unregisterNamed name =
      ((w.unregisterNamed name).1, (w.unregisterNamed name).2.ledger) := by
  cases h : w.named? name with
  | none =>
    have hunknown : w.lookup? name = none := by rw [lookup?, h]; rfl
    have hall : w.ledger.entries.filter (·.decl.name != name) = w.ledger.entries := by
      refine List.filter_eq_self.2 fun e he => ?_
      obtain ⟨c, hc, rfl⟩ := List.mem_map.1 he
      exact bne_iff_ne.2 (lookup?_eq_none_iff.1 hunknown c hc)
    rw [unregisterNamed_of_unknown hunknown, Ledger.unregisterNamed, ledger_named?, h, hall]
    rfl
  | some c =>
    obtain ⟨hc, rfl⟩ := hw.named?_eq_some_iff.1 h
    have hsame : w.ledger.entries.filter (·.decl.name != c.name) =
        w.ledger.entries.filter (·.id != c.id) := by
      refine List.filter_congr fun e he => ?_
      obtain ⟨a, ha, rfl⟩ := List.mem_map.1 he
      exact hw.name_bne_iff_id_bne ha hc
    rw [unregisterNamed_of_lookup? (hw.lookup?_of_mem hc), ← ledger_unregister,
      Ledger.unregisterNamed, ledger_named?, h, hsame, Ledger.unregister, ledger_find?,
      hw.class?_eq_some_iff.2 ⟨hc, rfl⟩]

theorem record_entryOf (w : World) (d : ClassDecl) : (w.entryOf d).record =
    { id := ⟨w.issued.classes⟩
      methodIds := (List.range' w.issued.methods d.methods.length).map .mk
      fieldIds := (List.range' w.issued.fields d.fields.length).map .mk
      decl := d } := by
  rw [ClassEntry.record, entryOf_methodIds, entryOf_fieldIds, entryOf_decl]
  rfl

theorem ledger_register (hw : w.WellFormed) (d : ClassDecl) :
    w.ledger.register d = ((w.register d).1, (w.register d).2.ledger) := by
  have hdrop := congrArg (·.2.entries) (ledger_unregisterNamed hw d.name)
  have hissued : w.issued = (w.unregisterNamed d.name).2.issued :=
    (w.unregisterNamed_issued d.name).symm
  have hnew : (w.register d).2.ledger.entries = (w.unregisterNamed d.name).2.ledger.entries ++
      [((w.unregisterNamed d.name).2.entryOf d).record] := by
    rw [register_snd, ledger, insert_classes, List.map_append]
    rfl
  refine Prod.ext (congrArg (fun i : Issued => ClassId.mk i.classes) hissued) ?_
  refine Ledger.ext ?_ ?_
  · rw [hnew, ← hdrop, record_entryOf, ← hissued]
    rfl
  · show Issued.mk (w.issued.classes + 1) (w.issued.methods + _) (w.issued.fields + _) = _
    rw [hissued]
    rfl

theorem record_withBody (c : ClassEntry) (id : MethodId) (body : Body) :
    (c.withBody id body).record = c.record.withBody id body := by
  have hmethods : (c.withBody id body).methods.map (·.decl) =
      List.zipWith (fun i m => if i = id then { m with body } else m) c.methodIds
        (c.methods.map (·.decl)) := by
    rw [ClassEntry.withBody_methods, ClassEntry.methodIds, List.zipWith_map, List.zipWith_self,
      List.map_map]
    refine List.map_congr_left fun m _ => ?_
    simp only [Function.comp]
    split <;> rfl
  simp only [ClassEntry.record, Entry.withBody, ClassEntry.withBody_methodIds, ClassEntry.decl, hmethods]
  rfl

theorem ledger_setBody? (w : World) (id : MethodId) (body : Body) :
    w.ledger.setBody? id body = (w.setBody? id body).map (·.ledger) := by
  have hiff : (∃ e ∈ w.ledger.entries, id ∈ e.methodIds) ↔ (w.method? id).isSome := by
    simp only [method?_isSome, methodIds_eq, List.mem_flatMap, ledger, List.mem_map,
      exists_exists_and_eq_and]
    rfl
  have hnew : (w.withBody id body).ledger.entries = w.ledger.entries.map (·.withBody id body) := by
    simp only [ledger, withBody_classes, List.map_map]
    exact List.map_congr_left fun c _ => record_withBody c id body
  by_cases h : (w.method? id).isSome
  · rw [setBody?_eq_some_iff.2 ⟨h, rfl⟩, Ledger.setBody?, if_pos (hiff.2 h), ← hnew]
    rfl
  · rw [World.setBody?, if_neg h, Ledger.setBody?, if_neg (mt hiff.1 h)]
    rfl

theorem ledger_apply (hw : w.WellFormed) (x : Change) : (w.apply x).ledger = w.ledger.apply x := by
  cases x with
  | register d => exact (congrArg (·.2) (ledger_register hw d)).symm
  | unregister id => exact (congrArg (·.2) (ledger_unregister w id)).symm
  | unregisterNamed name => exact (congrArg (·.2) (ledger_unregisterNamed hw name)).symm
  | setBody id body =>
    show ((w.setBody? id body).getD w).ledger = (w.ledger.setBody? id body).getD w.ledger
    rw [ledger_setBody?]
    cases w.setBody? id body <;> rfl
  | link => exact ledger_congr w.link_kept
  | index => exact ledger_congr w.index_kept
  | linkAndIndex => exact ledger_congr w.linkAndIndex_kept
  | dropDerived => exact ledger_congr ⟨rfl, rfl⟩

theorem ledger_run (hw : w.WellFormed) (l : List Change) : (w.run l).ledger = w.ledger.run l := by
  induction l generalizing w with
  | nil => rfl
  | cons x l ih =>
    show ((w.apply x).run l).ledger = (w.ledger.apply x).run l
    rw [ih (hw.moves (moves_apply hw x)), ledger_apply hw]

theorem ledger_findMethod? (w : World) (c : ClassId) (name : MemberName) (d : MethodDescriptor) :
    w.ledger.findMethod? c name d = ((w.class? c).bind (·.findMethod? name d)).map (·.id) := by
  rw [Ledger.findMethod?, ledger_find?]
  cases w.class? c with
  | none => rfl
  | some c =>
    show ((c.methodIds.zip (c.methods.map (·.decl))).find? _).map _ = (c.findMethod? name d).map _
    rw [ClassEntry.methodIds, List.zip_map', List.find?_map, Option.map_map]
    rfl

theorem ledger_findField? (w : World) (c : ClassId) (name : MemberName) (t : FieldType) :
    w.ledger.findField? c name t = ((w.class? c).bind (·.findField? name t)).map (·.id) := by
  rw [Ledger.findField?, ledger_find?]
  cases w.class? c with
  | none => rfl
  | some c =>
    show ((c.fieldIds.zip (c.fields.map (·.decl))).find? _).map _ = (c.findField? name t).map _
    rw [ClassEntry.fieldIds, List.zip_map', List.find?_map, Option.map_map]
    rfl

theorem ledger_ids (w : World) : w.ledger.ids = w.ids := by
  simp only [Ledger.ids, ledger, List.map_map, ids]
  rfl

theorem ledger_decls (w : World) : w.ledger.decls = w.decls := by
  simp only [Ledger.decls, ledger, List.map_map, decls]
  rfl

end World

/-! ### What the slots answer -/

namespace Store
open World
variable {s s' : Store} {w : World} {c : ClassEntry}

/-- Taking classes out does not look at the index of names. -/
theorem drain_names (s : Store) (names : List (ClassName × ClassId)) (ids : List ClassId) :
    { s with names }.drain ids = s.drain ids := by
  induction ids generalizing s with
  | nil => rfl
  | cons id ids ih =>
    have hclass : { s with names }.class? id = s.class? id := rfl
    cases h : s.class? id with
    | none => simp only [drain, takeClass?, hclass, h, Option.bind_eq_bind, Option.bind_none, ih]
    | some c =>
      simp only [drain, takeClass?, hclass, h, Option.bind_eq_bind, Option.bind_some, Option.pure_def]
      exact congrArg _ (ih ⟨_, _, _, s.names⟩)

namespace Holds

theorem methodsOf (h : s.Holds w) (hc : c ∈ w.classes) :
    s.methodsOf c.id = c.methods.map (·.stored c) := by
  rw [Store.methodsOf, h.class?_of_mem hc, Option.toList_some, List.flatMap_singleton]
  exact h.methods.filterMap_of_mem hc

theorem fieldsOf (h : s.Holds w) (hc : c ∈ w.classes) :
    s.fieldsOf c.id = c.fields.map (·.stored c) := by
  rw [Store.fieldsOf, h.class?_of_mem hc, Option.toList_some, List.flatMap_singleton]
  exact h.fields.filterMap_of_mem hc

theorem class?_eq_map (h : s.Holds w) (hw : w.WellFormed) (id : ClassId) :
    s.class? id = (w.class? id).map (·.stored) := by
  refine Option.ext fun x => ?_
  simp only [h.class?, Option.map_eq_some_iff, hw.class?_eq_some_iff, and_assoc]

theorem findMethod? (h : s.Holds w) (hw : w.WellFormed) (c : ClassId) (name : MemberName)
    (d : MethodDescriptor) :
    s.findMethod? c name d = ((w.class? c).bind (·.findMethod? name d)).map (·.id) := by
  cases hc : w.class? c with
  | none => simp [Store.findMethod?, Store.methodsOf, h.class?_eq_map hw, hc]
  | some e =>
    obtain ⟨he, rfl⟩ := hw.class?_eq_some_iff.1 hc
    rw [Store.findMethod?, h.methodsOf he, List.find?_map, Option.map_map]
    rfl

theorem findField? (h : s.Holds w) (hw : w.WellFormed) (c : ClassId) (name : MemberName)
    (t : FieldType) :
    s.findField? c name t = ((w.class? c).bind (·.findField? name t)).map (·.id) := by
  cases hc : w.class? c with
  | none => simp [Store.findField?, Store.fieldsOf, h.class?_eq_map hw, hc]
  | some e =>
    obtain ⟨he, rfl⟩ := hw.class?_eq_some_iff.1 hc
    rw [Store.findField?, h.fieldsOf he, List.find?_map, Option.map_map]
    rfl

/-- The classes are taken out one by one, the first of those that are left each time. -/
theorem drain (h : s.Holds w) (hw : w.WellFormed) : s.drain w.ids = w.decls := by
  induction hcs : w.classes generalizing s w with
  | nil => simp [World.ids, World.decls, hcs, Store.drain]
  | cons c cs ih =>
    have hc : c ∈ w.classes := hcs ▸ List.mem_cons_self
    have hrest : (w.remove c).classes = cs := by
      have hnodup := hw.ids_nodup
      rw [World.ids, hcs, List.map_cons, List.nodup_cons] at hnodup
      rw [remove_classes, hcs, List.filter_cons_of_neg (by simp)]
      refine List.filter_eq_self.2 fun e he => bne_iff_ne.2 fun hid => hnodup.1 ?_
      exact hid ▸ List.mem_map_of_mem he
    have hnext := ih (h.remove hw hc) (hw.remove c) hrest
    rw [drain_names, World.ids, World.decls, hrest] at hnext
    rw [World.ids, World.decls, hcs, List.map_cons, List.map_cons, Store.drain,
      h.takeClass?_of_mem hw hc]
    exact congrArg _ hnext

theorem contains (h : s.Holds w) (name : ClassName) :
    s.contains name = (w.lookup? name).isSome := by
  rw [← h.lookup?, Store.lookup?, Option.isSome_map, Store.contains, List.isSome_find?]

end Holds
end Store

/-! ### The result -/

/-- A world and its slots answer what a ledger answers, to every question and to every next change. -/
structure Ledger.Describes (L : Ledger) (w : World) (s : Store) : Prop where
  ledger : w.ledger = L
  names_nodup : (L.entries.map (·.decl.name)).Nodup
  lookup? : ∀ name, w.lookup? name = L.lookup? name ∧ s.lookup? name = L.lookup? name
  contains : ∀ name, s.contains name = (L.lookup? name).isSome
  ids : w.ids = L.ids ∧ s.ids = L.ids
  length : w.classes.length = L.entries.length ∧ s.names.length = L.entries.length
  findMethod? : ∀ c name d,
    ((w.class? c).bind (·.findMethod? name d)).map (·.id) = L.findMethod? c name d ∧
      s.findMethod? c name d = L.findMethod? c name d
  findField? : ∀ c name t,
    ((w.class? c).bind (·.findField? name t)).map (·.id) = L.findField? c name t ∧
      s.findField? c name t = L.findField? c name t
  decls : w.decls = L.decls ∧ s.decls = L.decls
  register : ∀ d, (w.register d).1 = (L.register d).1 ∧ (s.register d).1 = (L.register d).1
  unregister : ∀ id,
    (w.unregister id).1 = (L.unregister id).1 ∧ (s.unregister id).1 = (L.unregister id).1
  unregisterNamed : ∀ name, (w.unregisterNamed name).1 = (L.unregisterNamed name).1 ∧
    (s.unregisterNamed name).1 = (L.unregisterNamed name).1
  setBody? : ∀ id body, (w.setBody? id body).isSome = (L.setBody? id body).isSome ∧
    (s.setBody? id body).isSome = (L.setBody? id body).isSome
  /-- What the ledger does not have cannot be removed. -/
  unknown_id : ∀ id ∉ L.ids, w.unregister id = (none, w) ∧ s.unregister id = (none, s)
  unknown_name : ∀ name, L.lookup? name = none →
    w.unregisterNamed name = (none, w) ∧ s.unregisterNamed name = (none, s)

namespace World
variable {w : World} {s : Store}

theorem ledger_describes (hw : w.WellFormed) (h : s.Holds w) : w.ledger.Describes w s where
  ledger := rfl
  names_nodup := by
    show ((w.classes.map (·.record)).map _).Nodup
    rw [List.map_map]
    exact hw.names
  lookup? name := by rw [ledger_lookup?]; exact ⟨rfl, h.lookup? name⟩
  contains name := by rw [ledger_lookup?]; exact h.contains name
  ids := by rw [ledger_ids]; exact ⟨rfl, h.ids⟩
  length := by simp [ledger, h.names]
  findMethod? c name d := by rw [ledger_findMethod?]; exact ⟨rfl, h.findMethod? hw c name d⟩
  findField? c name t := by rw [ledger_findField?]; exact ⟨rfl, h.findField? hw c name t⟩
  decls := by
    rw [ledger_decls, Store.decls, h.ids]
    exact ⟨rfl, h.drain hw⟩
  register d := by rw [ledger_register hw]; exact ⟨rfl, (h.register hw d).1⟩
  unregister id := by rw [ledger_unregister]; exact ⟨rfl, (h.unregister hw id).1⟩
  unregisterNamed name := by
    rw [ledger_unregisterNamed hw]
    exact ⟨rfl, (h.unregisterNamed hw name).1⟩
  setBody? id body := by
    rw [ledger_setBody?, Option.isSome_map]
    exact ⟨rfl, (h.setBody? id body).1⟩
  unknown_id id hid := by
    rw [ledger_ids] at hid
    refine ⟨unregister_of_not_mem hid, ?_⟩
    simp only [Store.unregister, h.takeClass?_of_not_mem hid]
  unknown_name name hn := by
    rw [ledger_lookup?] at hn
    refine ⟨unregisterNamed_of_unknown hn, ?_⟩
    simp only [Store.unregisterNamed, h.lookup?, hn]

/-- Every run leaves a world and its slots as the run of the ledger says, and the number of the next
class is none of those that any class had on the way. -/
theorem ledger_of_run (settings : Settings) (l : List Change) :
    (Ledger.run {} l).Describes ((World.empty settings).run l) (Store.run {} l) ∧
      ∀ (l₁ l₂ : List Change) (d : ClassDecl), l₁ ++ l₂ = l →
        ((Ledger.run {} l).register d).1 ∉ (Ledger.run {} l₁).ids := by
  have hledger : ∀ l, ((World.empty settings).run l).ledger = Ledger.run {} l :=
    ledger_run (.empty settings)
  have hw : ∀ l, ((World.empty settings).run l).WellFormed := fun l =>
    Reachable.wellFormed ⟨settings, l, rfl⟩
  refine ⟨hledger l ▸ ledger_describes (hw l) (Store.holds_run settings l), ?_⟩
  rintro l₁ l₂ d rfl
  obtain ⟨c, hid, -, hnew, -, -⟩ :=
    ((Store.holds_run settings l₁).givenOutOnce (hw l₁)).register l₂ d
  have hrun : (World.empty settings).run (l₁ ++ l₂) = ((World.empty settings).run l₁).run l₂ :=
    List.foldl_append
  rw [← hledger, ← hledger, ledger_ids, ledger_register (hw _), hrun, ← hid]
  exact hnew

end World
end ClosedWorld
