/-!
# Access flags

Classes, methods and fields each have their own set of known flags. A value of type `Flags α` holds
known bits only: `Flags.ofBits` drops the others and `Flags.ofBits?` refuses them.
-/

namespace ClosedWorld

/-- A kind of flag, listed in ascending order of its bits, with names for common combinations. -/
class AccessFlag (α : Type) where
  all : List α
  bit : α → UInt16
  label : α → String
  groups : List (String × List α)

/-- The bits that have a meaning for this kind of flag. -/
def AccessFlag.known (α : Type) [AccessFlag α] : UInt16 :=
  ((all : List α).map bit).foldl (· ||| ·) 0

structure Flags (α : Type) [AccessFlag α] where
  bits : UInt16
  bits_and_known : bits &&& AccessFlag.known α = bits
deriving DecidableEq, Repr

namespace Flags
variable {α : Type} [AccessFlag α]

/-- The flags of a raw word, without the bits that have no meaning. -/
def ofBits (raw : UInt16) : Flags α :=
  ⟨raw &&& AccessFlag.known α, by rw [UInt16.and_assoc, UInt16.and_self]⟩

def ofBits? (raw : UInt16) : Option (Flags α) :=
  if h : raw &&& AccessFlag.known α = raw then some ⟨raw, h⟩ else none

def ofList (l : List α) : Flags α :=
  ofBits ((l.map AccessFlag.bit).foldl (· ||| ·) 0)

def has (f : Flags α) (a : α) : Bool :=
  f.bits &&& AccessFlag.bit a == AccessFlag.bit a

/-- The names of the flags that are set, then of the combinations that are wholly set. -/
def labels (f : Flags α) : List String :=
  (AccessFlag.all.filter f.has).map AccessFlag.label ++
    (AccessFlag.groups.filter fun g : String × List α => g.2.all f.has).map (·.1)

end Flags

inductive ClassFlag where
  | accPublic | accFinal | accSuper | accInterface | accAbstract
  | accSynthetic | accAnnotation | accEnum | accModule
deriving DecidableEq, Repr

namespace ClassFlag

def bit : ClassFlag → UInt16
  | accPublic => 0x0001
  | accFinal => 0x0010
  | accSuper => 0x0020
  | accInterface => 0x0200
  | accAbstract => 0x0400
  | accSynthetic => 0x1000
  | accAnnotation => 0x2000
  | accEnum => 0x4000
  | accModule => 0x8000

def label : ClassFlag → String
  | accPublic => "PUBLIC"
  | accFinal => "FINAL"
  | accSuper => "SUPER"
  | accInterface => "INTERFACE"
  | accAbstract => "ABSTRACT"
  | accSynthetic => "SYNTHETIC"
  | accAnnotation => "ANNOTATION"
  | accEnum => "ENUM"
  | accModule => "MODULE"

def publicInterface : List ClassFlag :=
  [accPublic, accInterface, accAbstract]

instance : AccessFlag ClassFlag where
  all := [accPublic, accFinal, accSuper, accInterface, accAbstract,
    accSynthetic, accAnnotation, accEnum, accModule]
  bit := bit
  label := label
  groups := [("PUBLIC_INTERFACE", publicInterface)]

end ClassFlag

inductive MethodFlag where
  | accPublic | accPrivate | accProtected | accStatic | accFinal | accSynchronized
  | accBridge | accVarargs | accNative | accAbstract | accStrict | accSynthetic
deriving DecidableEq, Repr

namespace MethodFlag

def bit : MethodFlag → UInt16
  | accPublic => 0x0001
  | accPrivate => 0x0002
  | accProtected => 0x0004
  | accStatic => 0x0008
  | accFinal => 0x0010
  | accSynchronized => 0x0020
  | accBridge => 0x0040
  | accVarargs => 0x0080
  | accNative => 0x0100
  | accAbstract => 0x0400
  | accStrict => 0x0800
  | accSynthetic => 0x1000

def label : MethodFlag → String
  | accPublic => "PUBLIC"
  | accPrivate => "PRIVATE"
  | accProtected => "PROTECTED"
  | accStatic => "STATIC"
  | accFinal => "FINAL"
  | accSynchronized => "SYNCHRONIZED"
  | accBridge => "BRIDGE"
  | accVarargs => "VARARGS"
  | accNative => "NATIVE"
  | accAbstract => "ABSTRACT"
  | accStrict => "STRICT"
  | accSynthetic => "SYNTHETIC"

instance : AccessFlag MethodFlag where
  all := [accPublic, accPrivate, accProtected, accStatic, accFinal, accSynchronized,
    accBridge, accVarargs, accNative, accAbstract, accStrict, accSynthetic]
  bit := bit
  label := label
  groups := []

end MethodFlag

inductive FieldFlag where
  | accPublic | accPrivate | accProtected | accStatic | accFinal
  | accVolatile | accTransient | accSynthetic | accEnum
deriving DecidableEq, Repr

namespace FieldFlag

def bit : FieldFlag → UInt16
  | accPublic => 0x0001
  | accPrivate => 0x0002
  | accProtected => 0x0004
  | accStatic => 0x0008
  | accFinal => 0x0010
  | accVolatile => 0x0040
  | accTransient => 0x0080
  | accSynthetic => 0x1000
  | accEnum => 0x4000

def label : FieldFlag → String
  | accPublic => "PUBLIC"
  | accPrivate => "PRIVATE"
  | accProtected => "PROTECTED"
  | accStatic => "STATIC"
  | accFinal => "FINAL"
  | accVolatile => "VOLATILE"
  | accTransient => "TRANSIENT"
  | accSynthetic => "SYNTHETIC"
  | accEnum => "ENUM"

def constant : List FieldFlag :=
  [accPublic, accStatic, accFinal]

instance : AccessFlag FieldFlag where
  all := [accPublic, accPrivate, accProtected, accStatic, accFinal,
    accVolatile, accTransient, accSynthetic, accEnum]
  bit := bit
  label := label
  groups := [("CONSTANT", constant)]

end FieldFlag

/-- A private or static interface method is never inherited from the interface. -/
def Flags.isHeritable (f : Flags MethodFlag) : Bool :=
  !f.has .accPrivate && !f.has .accStatic

end ClosedWorld
