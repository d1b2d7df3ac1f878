import ClosedWorld.Proofs.World.Following
import Mathlib.Order.Monotone.Basic

/-!
# Renaming classes and members

A renaming gives new numbers to classes, methods and fields, each in the same order. In a renamed hierarchy
the lists of a renamed class are those of the class, renamed. So it follows the hierarchy
(`follows_ofHierarchy`), and a search for a cycle reports the renamed class.
-/

namespace ClosedWorld

structure Renaming where
  classes : ℕ → ℕ
  methods : ℕ → ℕ
  fields : ℕ → ℕ
  classes_strictMono : StrictMono classes
  methods_strictMono : StrictMono methods
  fields_strictMono : StrictMono fields

namespace Renaming
variable (σ : Renaming)

def ofClass (c : ClassId) : ClassId := ⟨σ.classes c.val⟩

def ofMethod (m : MethodId) : MethodId := ⟨σ.methods m.val⟩

def ofField (f : FieldId) : FieldId := ⟨σ.fields f.val⟩

def ofMethodEntry (m : MethodEntry) : MethodEntry := { m with id := σ.ofMethod m.id }

def ofFieldEntry (f : FieldEntry) : FieldEntry := { f with id := σ.ofField f.id }

def ofClassEntry (c : ClassEntry) : ClassEntry :=
  { c with
    id := σ.ofClass c.id
    methods := c.methods.map σ.ofMethodEntry
    fields := c.fields.map σ.ofFieldEntry }

def ofHierarchy (h : Hierarchy) : Hierarchy where
  parents := h.parents.rename σ.ofClass σ.ofClass
  interfaces := h.interfaces.rename σ.ofClass σ.ofClass

def ofDeclared {α : Type} (g : α → α) (t : Declared α) : Declared α := ⟨σ.ofClass t.owner, g t.member⟩

theorem ofClass_injective : Function.Injective σ.ofClass := by
  rintro ⟨a⟩ ⟨b⟩ h
  exact congrArg ClassId.mk (σ.classes_strictMono.injective (ClassId.mk.inj h))

theorem ofMethod_injective : Function.Injective σ.ofMethod := by
  rintro ⟨a⟩ ⟨b⟩ h
  exact congrArg MethodId.mk (σ.methods_strictMono.injective (MethodId.mk.inj h))

theorem ofField_injective : Function.Injective σ.ofField := by
  rintro ⟨a⟩ ⟨b⟩ h
  exact congrArg FieldId.mk (σ.fields_strictMono.injective (FieldId.mk.inj h))

@[simp] theorem ofClass_inj {a b : ClassId} : σ.ofClass a = σ.ofClass b ↔ a = b :=
  σ.ofClass_injective.eq_iff

/-- Apart from the order, a renaming gives other identifiers. -/
def relabeling : Relabeling where
  ofClass := σ.ofClass
  ofMethod := σ.ofMethod
  ofField := σ.ofField
  ofClass_injective := σ.ofClass_injective
  ofMethod_injective := σ.ofMethod_injective
  ofField_injective := σ.ofField_injective

/-! ### Hierarchies -/

section Hierarchy
variable (h : Hierarchy) (c : ClassId)

theorem parent?_ofHierarchy : (σ.ofHierarchy h).parent? (σ.ofClass c) = (h.parent? c).map σ.ofClass := by
  rw [Hierarchy.parent?, ofHierarchy, Edges.targets_rename σ.ofClass_injective, List.head?_map]
  rfl

theorem children_ofHierarchy :
    (σ.ofHierarchy h).children (σ.ofClass c) = (h.children c).map σ.ofClass :=
  Edges.sources_rename σ.ofClass_injective _ _

theorem interfacesOf_ofHierarchy :
    (σ.ofHierarchy h).interfacesOf (σ.ofClass c) = (h.interfacesOf c).map σ.ofClass :=
  Edges.targets_rename σ.ofClass_injective _ _

theorem implementers_ofHierarchy :
    (σ.ofHierarchy h).implementers (σ.ofClass c) = (h.implementers c).map σ.ofClass :=
  Edges.sources_rename σ.ofClass_injective _ _

theorem follows_ofHierarchy : h.Follows σ.ofClass (σ.ofHierarchy h) where
  injective := σ.ofClass_injective
  parent? := σ.parent?_ofHierarchy h
  interfacesOf := σ.interfacesOf_ofHierarchy h
  parents_length := List.length_map _
  interfaces_length := List.length_map _

theorem cycle?_ofHierarchy (ids : List ClassId) :
    (σ.ofHierarchy h).cycle? (ids.map σ.ofClass) = (h.cycle? ids).map σ.ofClass := by
  rw [Hierarchy.cycle?, List.length_map]
  exact Graph.cycle?_map σ.ofClass_injective (σ.follows_ofHierarchy h).supertypes _ _

end Hierarchy
end Renaming
end ClosedWorld
