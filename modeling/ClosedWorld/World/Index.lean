import ClosedWorld.Instruction.Mention
import ClosedWorld.World.Resolver

/-!
# Indexing references

The bodies of all methods are walked in order of registration, declaration and position. Each mention
that the settings ask for is resolved to a finding. The world stays as it is until all findings are
there; then they are recorded one by one, and the tally is read off them.
-/

namespace ClosedWorld

/-- What one mention, or the type of one field, was resolved to. -/
inductive Finding where
  | call (caller callee : MethodId) (owner : ClassId)
  | read (reader : MethodId) (field : FieldId) (owner : ClassId)
  | write (writer : MethodId) (field : FieldId) (owner : ClassId)
  | type (method : MethodId) (target : ClassId)
  | string (owner : ClassId) (value : String)
  | fieldType (field : FieldId) (target : ClassId)
  /-- The target is outside of the world. -/
  | skipped
deriving DecidableEq

namespace Resolver

/-- The finding for a mention in the body of a method, if the settings ask for it. -/
def finding? (r : Resolver) (owner : ClassId) (m : MethodId) : Mention → Option Finding
  | .call ref => some ((r.methodOf? ref).elim .skipped fun t => .call m t.member.id t.owner)
  | .read ref => some ((r.fieldOf? ref).elim .skipped fun t => .read m t.member.id t.owner)
  | .write ref => some ((r.fieldOf? ref).elim .skipped fun t => .write m t.member.id t.owner)
  | .type name =>
    if r.world.settings.types then some ((r.world.lookup? name).elim .skipped (.type m)) else none
  | .string value => if r.world.settings.strings then some (.string owner value) else none

def bodyFindings (r : Resolver) (owner : ClassId) (m : MethodEntry) : List Finding :=
  (m.decl.body.filterMap (·.insn.mention?)).filterMap (r.finding? owner m.id)

/-- The finding for the type of a field. A class outside of the world gives none. -/
def fieldFinding? (r : Resolver) (f : FieldEntry) : Option Finding :=
  (r.world.typeClass? f).map (.fieldType f.id)

/-- The findings for a class: its bodies, then its fields. -/
def classFindings (r : Resolver) (c : ClassEntry) : List Finding :=
  c.methods.flatMap (r.bodyFindings c.id) ++
    if r.world.settings.fieldTypes then c.fields.filterMap r.fieldFinding? else []

def findings (r : Resolver) : List Finding :=
  r.world.classes.flatMap r.classFindings

end Resolver

namespace Finding

def call? : Finding → Option (MethodId × MethodId)
  | call m k _ => some (m, k)
  | _ => none

def read? : Finding → Option (MethodId × FieldId)
  | read m f _ => some (m, f)
  | _ => none

def write? : Finding → Option (MethodId × FieldId)
  | write m f _ => some (m, f)
  | _ => none

/-- Every member found refers to the class that declares it as well. -/
def type? : Finding → Option (MethodId × ClassId)
  | call m _ c | read m _ c | write m _ c | type m c => some (m, c)
  | _ => none

def string? : Finding → Option (ClassId × String)
  | string c s => some (c, s)
  | _ => none

def fieldType? : Finding → Option (FieldId × ClassId)
  | fieldType f c => some (f, c)
  | _ => none

def isType : Finding → Bool
  | type _ _ => true
  | _ => false

def isSkipped : Finding → Bool
  | skipped => true
  | _ => false

end Finding

namespace References

/-- Records a finding. A member that was found refers to the class that declares it as well. -/
def record (r : References) : Finding → References
  | .call m k c => { r with calls := r.calls.record (m, k), types := r.types.record (m, c) }
  | .read m f c => { r with reads := r.reads.record (m, f), types := r.types.record (m, c) }
  | .write m f c => { r with writes := r.writes.record (m, f), types := r.types.record (m, c) }
  | .type m c => { r with types := r.types.record (m, c) }
  | .string c s => { r with strings := r.strings ++ [(c, s)] }
  | .fieldType f c => { r with fieldTypes := r.fieldTypes ++ [(f, c)] }
  | .skipped => r

def ofFindings (l : List Finding) : References := l.foldl record {}

end References

structure Tally where
  calls : Nat
  reads : Nat
  writes : Nat
  types : Nat
  strings : Nat
  fieldTypes : Nat
  skipped : Nat
deriving DecidableEq, Repr

def Tally.ofFindings (l : List Finding) : Tally where
  calls := l.countP (·.call?.isSome)
  reads := l.countP (·.read?.isSome)
  writes := l.countP (·.write?.isSome)
  types := l.countP (·.isType)
  strings := l.countP (·.string?.isSome)
  fieldTypes := l.countP (·.fieldType?.isSome)
  skipped := l.countP (·.isSkipped)

namespace World

/-- Derives the references anew from a hierarchy that can be trusted. -/
def index (w : World) : Except WorldError Tally × World :=
  match w.resolver with
  | .error e => (.error e, w)
  | .ok r =>
    let l := r.findings
    (.ok (.ofFindings l), { w with references := .ofFindings l, stage := .indexed })

def linkAndIndex (w : World) : Except WorldError Tally × World :=
  match w.link with
  | (.error e, w) => (.error e, w)
  | (.ok (), w) => w.index

end World
end ClosedWorld
