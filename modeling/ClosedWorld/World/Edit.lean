import ClosedWorld.World.Basic

/-!
# Editing a world

Registering a class makes the hierarchy stale. Removing a class or editing a body does not. A class is
removed before its methods, and these before its fields, one by one; each is forgotten by what it lists.
-/

namespace ClosedWorld.World

def typeClass? (w : World) (f : FieldEntry) : Option ClassId :=
  f.decl.type.className?.bind w.lookup?

/-- What is left of the references after a class was taken out of the world, its members as well. -/
def referencesWithout (w : World) (c : ClassEntry) : References :=
  let r := c.methodIds.foldl .dropMethod (w.references.dropClass c.id)
  c.fields.foldl (fun r f => r.dropField f.id (w.typeClass? f)) r

/-- Removes a class. The answer is its declaration with all edits made to its bodies. -/
def unregister (w : World) (id : ClassId) : Option ClassDecl × World :=
  match w.class? id with
  | none => (none, w)
  | some c =>
    let w := { w with classes := w.classes.filter (·.id != id) }
    (some c.decl, { w with
      hierarchy := w.hierarchy.dropClass id
      references := w.referencesWithout c
      stage := w.stage.withoutIndex })

def unregisterNamed (w : World) (name : ClassName) : Option ClassDecl × World :=
  match w.lookup? name with
  | none => (none, w)
  | some id => w.unregister id

def entryOf (w : World) (d : ClassDecl) : ClassEntry :=
  { d.toClassHeader with
    id := ⟨w.issued.classes⟩
    methods := (d.methods.zipIdx w.issued.methods).map fun (m, i) => ⟨⟨i⟩, m⟩
    fields := (d.fields.zipIdx w.issued.fields).map fun (f, i) => ⟨⟨i⟩, f⟩ }

/-- Adds a class at the end, in place of a class of the same name if there is one. -/
def register (w : World) (d : ClassDecl) : ClassId × World :=
  let w := (w.unregisterNamed d.name).2
  let c := w.entryOf d
  (c.id, { w with
    classes := w.classes ++ [c]
    issued := ⟨w.issued.classes + 1, w.issued.methods + d.methods.length,
      w.issued.fields + d.fields.length⟩
    stage := .unlinked })

def setBody? (w : World) (id : MethodId) (body : Body) : Option World :=
  if (w.method? id).isSome then
    some { w with
      classes := w.classes.map fun c => { c with
        methods := c.methods.map fun m =>
          if m.id = id then { m with decl := { m.decl with body } } else m }
      stage := w.stage.withoutIndex }
  else none

/-- Replaces the body of a method by what a function makes of it, if the world has the method. -/
def modifyBody? {α : Type} (w : World) (id : MethodId) (f : Body → α × Body) :
    Option (α × World) := do
  let (_, m) ← w.method? id
  let (a, body) := f m.decl.body
  let w ← w.setBody? id body
  pure (a, w)

def dropDerived (w : World) : World :=
  { w with hierarchy := {}, references := {}, stage := .unlinked }

end ClosedWorld.World
