import ClosedWorld.Declaration
import ClosedWorld.Numeral

/-!
# Instructions as forms

A form is the name of an instruction and its operands, as texts, numbers and lists. Names of classes and
members, descriptors and types stand in a form as texts and are checked from left to right when an
instruction is made of it. Wide integers stand as decimal texts, floating point numbers as the
hexadecimal digits of their bits, which are written in small letters and read in either case.
-/

namespace ClosedWorld

inductive Operand where
  | int (value : Int)
  | text (value : String)
  | flag (value : Bool)
  | list (items : List Operand)

structure Form where
  name : String
  operands : List Operand

inductive FormError where
  | shape
  | declaration (e : DeclError)
  | descriptor (e : DescriptorError)
deriving DecidableEq, Repr

/-- Names of values, each name and each value once. -/
abbrev NameTable (α : Type) := List (String × α)

namespace NameTable
variable {α : Type}

def value? (t : NameTable α) (name : String) : Option α := t.lookup name

def name [DecidableEq α] (t : NameTable α) (a : α) : String :=
  ((t.find? (·.2 = a)).map (·.1)).getD ""

end NameTable

def PlainOp.names : NameTable PlainOp :=
  [("Nop", .nop), ("AConstNull", .aconstNull), ("IConstM1", .iconstM1), ("IConst0", .iconst0),
    ("IConst1", .iconst1), ("IConst2", .iconst2), ("IConst3", .iconst3), ("IConst4", .iconst4),
    ("IConst5", .iconst5), ("LConst0", .lconst0), ("LConst1", .lconst1), ("FConst0", .fconst0),
    ("FConst1", .fconst1), ("FConst2", .fconst2), ("DConst0", .dconst0), ("DConst1", .dconst1),
    ("IALoad", .iaload), ("LALoad", .laload), ("FALoad", .faload), ("DALoad", .daload),
    ("AALoad", .aaload), ("BALoad", .baload), ("CALoad", .caload), ("SALoad", .saload),
    ("IAStore", .iastore), ("LAStore", .lastore), ("FAStore", .fastore), ("DAStore", .dastore),
    ("AAStore", .aastore), ("BAStore", .bastore), ("CAStore", .castore), ("SAStore", .sastore),
    ("Pop", .pop), ("Pop2", .pop2), ("Dup", .dup), ("DupX1", .dupX1), ("DupX2", .dupX2),
    ("Dup2", .dup2), ("Dup2X1", .dup2X1), ("Dup2X2", .dup2X2), ("Swap", .swap), ("IAdd", .iadd),
    ("LAdd", .ladd), ("FAdd", .fadd), ("DAdd", .dadd), ("ISub", .isub), ("LSub", .lsub),
    ("FSub", .fsub), ("DSub", .dsub), ("IMul", .imul), ("LMul", .lmul), ("FMul", .fmul),
    ("DMul", .dmul), ("IDiv", .idiv), ("LDiv", .ldiv), ("FDiv", .fdiv), ("DDiv", .ddiv),
    ("IRem", .irem), ("LRem", .lrem), ("FRem", .frem), ("DRem", .drem), ("INeg", .ineg),
    ("LNeg", .lneg), ("FNeg", .fneg), ("DNeg", .dneg), ("IAnd", .iand), ("LAnd", .land),
    ("IOr", .ior), ("LOr", .lor), ("IXor", .ixor), ("LXor", .lxor), ("I2L", .i2l), ("I2F", .i2f),
    ("I2D", .i2d), ("L2I", .l2i), ("L2F", .l2f), ("L2D", .l2d), ("F2I", .f2i), ("F2L", .f2l),
    ("F2D", .f2d), ("D2I", .d2i), ("D2L", .d2l), ("D2F", .d2f), ("I2B", .i2b), ("I2C", .i2c),
    ("I2S", .i2s), ("LCmp", .lcmp), ("IReturn", .ireturn), ("LReturn", .lreturn),
    ("FReturn", .freturn), ("DReturn", .dreturn), ("AReturn", .areturn), ("Return", .returnVoid),
    ("ArrayLength", .arraylength), ("AThrow", .athrow), ("MonitorEnter", .monitorenter),
    ("MonitorExit", .monitorexit)]

def LocalKind.loadNames : NameTable LocalKind :=
  [("ILoad", .int), ("LLoad", .long), ("FLoad", .float), ("DLoad", .double), ("ALoad", .reference)]

def LocalKind.storeNames : NameTable LocalKind :=
  [("IStore", .int), ("LStore", .long), ("FStore", .float), ("DStore", .double),
    ("AStore", .reference)]

def IntegralKind.shiftNames : NameTable IntegralKind := [("ISh", .int), ("LSh", .long)]

def FloatingKind.compareNames : NameTable FloatingKind := [("FCmp", .float), ("DCmp", .double)]

def FieldAccess.names : NameTable FieldAccess :=
  [("GetStatic", .getStatic), ("PutStatic", .putStatic), ("GetField", .getField),
    ("PutField", .putField)]

def Shift.names : NameTable Shift :=
  [("Left", .left), ("LogicalRight", .logicalRight), ("ArithmeticRight", .arithmeticRight)]

def NaNOrder.names : NameTable NaNOrder := [("L", .less), ("G", .greater)]

def Comparison.names : NameTable Comparison :=
  [("EQ", .eq), ("GE", .ge), ("GT", .gt), ("LE", .le), ("LT", .lt), ("NE", .ne)]

def Equality.names : NameTable Equality := [("EQ", .eq), ("NE", .ne)]

def InvokeMode.names : NameTable InvokeMode :=
  [("Virtual", .virtualCall), ("Special", .specialCall), ("Static", .staticCall),
    ("Interface", .interfaceCall)]

/-- A number in hexadecimal digits, at least `width` of them. -/
def hexText (width n : Nat) : String := String.ofList (Numeral.padded 16 width n)

/-- The number that a hexadecimal text denotes, if it fits into `width` digits. -/
def hexValue? (width : Nat) (s : String) : Option Nat :=
  (Numeral.unsigned? 16 s.toList).filter (· < Nat.pow 16 width)

/-- The number that a decimal text denotes, if it fits into a long. -/
def longValue? (s : String) : Option Int64 :=
  (Numeral.signed? 10 s.toList).bind fun i =>
    if Int64.minValue.toInt ≤ i ∧ i ≤ Int64.maxValue.toInt then some (.ofInt i) else none

namespace Operand

def ofLabel (l : Label) : Operand := .int l.number.toNat

def ofDescriptor {α : Type} [Descriptor α] (a : α) : Operand := .text (Descriptor.toString a)

def ofConstant : Constant → List Operand
  | .int x => [.text "int", .int x.toInt]
  | .long x => [.text "long", .text (toString x.toInt)]
  | .float x => [.text "float", .text (hexText 8 x.bits.toNat)]
  | .double x => [.text "double", .text (hexText 16 x.bits.toNat)]
  | .string s => [.text "string", .text s]
  | .classRef t => [.text "class", ofDescriptor t]

def orShape {α : Type} : Option α → Except FormError α
  | some a => .ok a
  | none => .error .shape

def toInt : Operand → Except FormError Int
  | .int i => .ok i
  | _ => .error .shape

def toNat (x : Operand) : Except FormError Nat := Int.toNat <$> x.toInt

def toLabel (x : Operand) : Except FormError Label := (⟨UInt32.ofNat ·⟩) <$> x.toNat

def toList : Operand → Except FormError (List Operand)
  | .list l => .ok l
  | _ => .error .shape

def toCase (x : Operand) : Except FormError (Int32 × Label) := do
  match ← x.toList with
  | [k, l] => pure (.ofInt (← k.toInt), ← l.toLabel)
  | _ => .error .shape

end Operand

namespace Form

open Operand (orShape)

def ofInstruction : Instruction → Form
  | .plain op => ⟨PlainOp.names.name op, []⟩
  | .bipush n => ⟨"BiPush", [.int n.toInt]⟩
  | .sipush n => ⟨"SiPush", [.int n.toInt]⟩
  | .ldc c => ⟨"Ldc", Operand.ofConstant c⟩
  | .load k i => ⟨LocalKind.loadNames.name k, [.int i.toNat]⟩
  | .store k i => ⟨LocalKind.storeNames.name k, [.int i.toNat]⟩
  | .shift k s => ⟨IntegralKind.shiftNames.name k, [.text (Shift.names.name s)]⟩
  | .iinc i n => ⟨"IInc", [.int i.toNat, .int n.toInt]⟩
  | .compare k n => ⟨FloatingKind.compareNames.name k, [.text (NaNOrder.names.name n)]⟩
  | .ifInt c l => ⟨"If", [.text (Comparison.names.name c), .ofLabel l]⟩
  | .ifIntCompare c l => ⟨"IfICmp", [.text (Comparison.names.name c), .ofLabel l]⟩
  | .ifRefCompare c l => ⟨"IfACmp", [.text (Equality.names.name c), .ofLabel l]⟩
  | .ifNull c l => ⟨"IfNull", [.text (Equality.names.name c), .ofLabel l]⟩
  | .goto l => ⟨"Goto", [.ofLabel l]⟩
  | .tableSwitch d low ts =>
    ⟨"TableSwitch", [.ofLabel d, .int low.toInt, .list (ts.map .ofLabel)]⟩
  | .lookupSwitch d ts =>
    ⟨"LookupSwitch", [.ofLabel d, .list (ts.map fun (k, l) => .list [.int k.toInt, .ofLabel l])]⟩
  | .field access ref => ⟨FieldAccess.names.name access,
      [.text ref.owner.text, .text ref.name.text, .ofDescriptor ref.type]⟩
  | .invoke mode ref => ⟨"Invoke", [.text (InvokeMode.names.name mode), .text ref.owner.text,
      .text ref.name.text, .ofDescriptor ref.descriptor, .flag ref.ownerIsInterface]⟩
  | .invokeDynamic n d => ⟨"InvokeDynamic", [.text n.text, .ofDescriptor d]⟩
  | .new n => ⟨"New", [.text n.text]⟩
  | .newArray b => ⟨"NewArray", [.ofDescriptor b]⟩
  | .aNewArray t => ⟨"ANewArray", [.ofDescriptor t]⟩
  | .checkCast t => ⟨"CheckCast", [.ofDescriptor t]⟩
  | .instanceOf t => ⟨"InstanceOf", [.ofDescriptor t]⟩
  | .multiANewArray t n => ⟨"MultiANewArray", [.ofDescriptor t, .int n.toNat]⟩
  | .label l => ⟨"Label", [.ofLabel l]⟩
  | .lineNumber n l => ⟨"LineNumber", [.int n.toNat, .ofLabel l]⟩

def className (s : String) : Except FormError ClassName :=
  (ClassName.parse s).mapError .declaration

def member {α : Type} [Descriptor α] (name descriptor : String) :
    Except FormError (MemberName × α) :=
  (parseMember name descriptor).mapError .declaration

def descriptor {α : Type} [Descriptor α] (s : String) : Except FormError α :=
  (Descriptor.parse s).mapError .descriptor

def constant : List Operand → Except FormError Constant
  | [.text "int", .int i] => .ok (.int (.ofInt i))
  | [.text "long", .text s] => .long <$> orShape (longValue? s)
  | [.text "float", .text s] => (fun n => .float ⟨.ofNat n⟩) <$> orShape (hexValue? 8 s)
  | [.text "double", .text s] => (fun n => .double ⟨.ofNat n⟩) <$> orShape (hexValue? 16 s)
  | [.text "string", .text s] => .ok (.string s)
  | [.text "class", .text s] => .classRef <$> descriptor s
  | _ => .error .shape

/-- An instruction with one operand, of the groups that share a shape. -/
def oneOperand (name : String) : Operand → Except FormError Instruction
  | .text s =>
    match IntegralKind.shiftNames.value? name, FloatingKind.compareNames.value? name with
    | some k, _ => .shift k <$> orShape (Shift.names.value? s)
    | _, some k => .compare k <$> orShape (NaNOrder.names.value? s)
    | _, _ => .error .shape
  | x =>
    match LocalKind.loadNames.value? name, LocalKind.storeNames.value? name with
    | some k, _ => (fun n => .load k (.ofNat n)) <$> x.toNat
    | _, some k => (fun n => .store k (.ofNat n)) <$> x.toNat
    | _, _ => .error .shape

def toInstruction (f : Form) : Except FormError Instruction := do
  match f.name, f.operands with
  | "BiPush", [n] => pure (.bipush (.ofInt (← n.toInt)))
  | "SiPush", [n] => pure (.sipush (.ofInt (← n.toInt)))
  | "Ldc", l => .ldc <$> constant l
  | "IInc", [i, n] => pure (.iinc (.ofNat (← i.toNat)) (.ofInt (← n.toInt)))
  | "If", [.text c, l] => pure (.ifInt (← orShape (Comparison.names.value? c)) (← l.toLabel))
  | "IfICmp", [.text c, l] =>
    pure (.ifIntCompare (← orShape (Comparison.names.value? c)) (← l.toLabel))
  | "IfACmp", [.text c, l] =>
    pure (.ifRefCompare (← orShape (Equality.names.value? c)) (← l.toLabel))
  | "IfNull", [.text c, l] => pure (.ifNull (← orShape (Equality.names.value? c)) (← l.toLabel))
  | "Goto", [l] => .goto <$> l.toLabel
  | "TableSwitch", [d, low, ts] =>
    pure (.tableSwitch (← d.toLabel) (.ofInt (← low.toInt)) (← (← ts.toList).mapM (·.toLabel)))
  | "LookupSwitch", [d, ts] =>
    pure (.lookupSwitch (← d.toLabel) (← (← ts.toList).mapM (·.toCase)))
  | "Invoke", [.text mode, .text owner, .text n, .text d, .flag i] =>
    let mode ← orShape (InvokeMode.names.value? mode)
    let owner ← className owner
    let (n, d) ← member n d
    pure (.invoke mode ⟨owner, n, d, i⟩)
  | "InvokeDynamic", [.text n, .text d] =>
    let (n, d) ← member n d
    pure (.invokeDynamic n d)
  | "New", [.text n] => .new <$> className n
  | "NewArray", [.text b] => .newArray <$> descriptor b
  | "ANewArray", [.text t] => .aNewArray <$> descriptor t
  | "CheckCast", [.text t] => .checkCast <$> descriptor t
  | "InstanceOf", [.text t] => .instanceOf <$> descriptor t
  | "MultiANewArray", [.text t, n] => pure (.multiANewArray (← descriptor t) (.ofNat (← n.toNat)))
  | "Label", [l] => .label <$> l.toLabel
  | "LineNumber", [n, l] => pure (.lineNumber (.ofNat (← n.toNat)) (← l.toLabel))
  | name, [] => .plain <$> orShape (PlainOp.names.value? name)
  | name, [x] => oneOperand name x
  | name, [.text owner, .text n, .text d] =>
    let access ← orShape (FieldAccess.names.value? name)
    let owner ← className owner
    let (n, d) ← member n d
    pure (.field access ⟨owner, n, d⟩)
  | _, _ => .error .shape

end Form
end ClosedWorld
