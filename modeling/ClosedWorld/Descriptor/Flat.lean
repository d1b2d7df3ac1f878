import ClosedWorld.Descriptor.Format

/-!
# Types in machine words

A type as it is stored: the dimensions of an array beyond the first are one word that stands beside the
innermost element, and arrays of classes and arrays of primitives are cases of their own. To nest an array
once more, to print it and to read it are to count in words, and a count that no word holds breaks off.
-/

namespace ClosedWorld

namespace Word

/-- One more, unless no word holds it. -/
def next? (w : UInt64) : Option UInt64 :=
  if w.toNat + 1 < UInt64.size then some (w + 1) else none

/-- One less, unless there is none. -/
def prev? (w : UInt64) : Option UInt64 :=
  if w = 0 then none else some (w - 1)

end Word

/-! ### Types -/

structure FlatArray (α : Type) where
  /-- The dimensions beyond the first. -/
  extra : UInt64
  element : α
deriving DecidableEq, Repr

namespace FlatArray
variable {α : Type}

def outermost (element : α) : FlatArray α := ⟨0, element⟩

def dimensions? (a : FlatArray α) : Option UInt64 := Word.next? a.extra

def nested? (a : FlatArray α) : Option (FlatArray α) :=
  (Word.next? a.extra).map (⟨·, a.element⟩)

def render? (print : α → List Char) (a : FlatArray α) : Option (List Char) :=
  a.dimensions?.map fun n => List.replicate n.toNat '[' ++ print a.element

end FlatArray

inductive FlatRef where
  | object (name : ClassName)
  | objectArray (a : FlatArray ClassName)
  | baseArray (a : FlatArray BaseType)
deriving DecidableEq, Repr

inductive FlatType where
  | base (b : BaseType)
  | ref (u : FlatRef)
deriving DecidableEq, Repr

namespace FlatRef

/-- The array type with one dimension more than `extra`. -/
def array (extra : UInt64) : Element → FlatRef
  | .object name => objectArray ⟨extra, name⟩
  | .base b => baseArray ⟨extra, b⟩

/-- The array type whose elements are of a type. -/
def array? : FlatType → Option FlatRef
  | .base b => some (baseArray (.outermost b))
  | .ref (object name) => some (objectArray (.outermost name))
  | .ref (baseArray a) => a.nested?.map baseArray
  | .ref (objectArray a) => a.nested?.map objectArray

def dimensions? : FlatRef → Option UInt64
  | object _ => some 0
  | objectArray a => a.dimensions?
  | baseArray a => a.dimensions?

def className? : FlatRef → Option ClassName
  | object name => some name
  | objectArray a => some a.element
  | baseArray _ => none

def render? : FlatRef → Option (List Char)
  | object name => some name.render
  | objectArray a => a.render? ClassName.render
  | baseArray a => a.render? BaseType.render

end FlatRef

namespace FlatType

def array? (t : FlatType) : Option FlatType := (FlatRef.array? t).map ref

def arrays? : Nat → FlatType → Option FlatType
  | 0, t => some t
  | n + 1, t => (arrays? n t).bind array?

def dimensions? : FlatType → Option UInt64
  | base _ => some 0
  | ref u => u.dimensions?

def slots : FlatType → Nat
  | base b => if b.isWide then 2 else 1
  | ref _ => 1

def className? : FlatType → Option ClassName
  | base _ => none
  | ref u => u.className?

def render? : FlatType → Option (List Char)
  | base b => some b.render
  | ref u => u.render?

end FlatType

/-! ### The dimensions as a number -/

def FlatRef.plain : FlatRef → RefType
  | object name => .object name
  | objectArray a => .array (.object a.element) a.extra.toNat
  | baseArray a => .array (.base a.element) a.extra.toNat

def FlatType.plain : FlatType → FieldType
  | base b => .base b
  | ref u => u.plain.type

/-! ### Reading -/

theorem Reader.length_drop_one_lt {r : Reader} {c : Char} (h : r.rest.head? = some c) :
    (r.drop 1).rest.length < r.rest.length := by
  rw [length_drop]
  cases hr : r.rest with
  | nil => simp [hr] at h
  | cons c cs => simp

inductive WordStop where
  | error (e : DescriptorError)
  /-- A count that no word holds. -/
  | outOfRange
deriving DecidableEq, Repr

/-- A step of reading that counts in words. -/
abbrev WordRead := EStateM WordStop Reader

namespace WordRead
variable {α : Type}

def ofRead (p : Read α) : WordRead α := fun r =>
  match p r with
  | (.ok a, r') => .ok a r'
  | (.error e, r') => .error (.error e) r'

def ofOption (a? : Option α) : WordRead α :=
  match a? with
  | none => throw .outOfRange
  | some a => pure a

/-- Consumes every `[` that stands next and counts on. -/
def brackets (counted : UInt64) : WordRead UInt64 := fun r =>
  if _h : r.rest.head? = some '[' then
    match Word.next? counted with
    | none => .error .outOfRange (r.drop 1)
    | some n => brackets n (r.drop 1)
  else .ok counted r
termination_by r => r.rest.length
decreasing_by exact Reader.length_drop_one_lt _h

def arrayType : WordRead FlatRef := do
  let n ← brackets 0
  let extra ← ofOption (Word.prev? n)
  let e ← ofRead Reader.element
  pure (.array extra e)

def refType : WordRead FlatRef := fun r =>
  if r.rest.head? = some '[' then arrayType r
  else (.object <$> ofRead Reader.className : WordRead FlatRef) r

def fieldType : WordRead FlatType := fun r =>
  if r.rest.head? = some 'L' ∨ r.rest.head? = some '[' then (.ref <$> refType : WordRead FlatType) r
  else (.base <$> ofRead Reader.baseType : WordRead FlatType) r

/-- The value of a text that is one type and nothing more. -/
def whole (p : WordRead α) (s : String) : Except WordStop α :=
  match p (Reader.ofString s) with
  | .error e _ => .error e
  | .ok a r => if r.rest.isEmpty then .ok a else .error (.error r.unexpected)

end WordRead

def FlatRef.parse (s : String) : Except WordStop FlatRef := WordRead.refType.whole s

def FlatType.parse (s : String) : Except WordStop FlatType := WordRead.fieldType.whole s

end ClosedWorld
