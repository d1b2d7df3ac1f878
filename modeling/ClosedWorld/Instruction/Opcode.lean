import ClosedWorld.Instruction.Basic

/-!
# Opcodes

An instruction with several encodings has the opcode of the general one: `iload` for `iload_0`, `ldc`
for `ldc_w`, `goto` for `goto_w`. Pseudo-instructions have no opcode.
-/

namespace ClosedWorld

def Constant.opcode : Constant → UInt8
  | .long _ | .double _ => 0x14
  | _ => 0x12

def LocalKind.loadOpcode : LocalKind → UInt8
  | .int => 0x15
  | .long => 0x16
  | .float => 0x17
  | .double => 0x18
  | .reference => 0x19

def LocalKind.storeOpcode : LocalKind → UInt8
  | .int => 0x36
  | .long => 0x37
  | .float => 0x38
  | .double => 0x39
  | .reference => 0x3a

def Shift.opcode : IntegralKind → Shift → UInt8
  | .int, .left => 0x78
  | .long, .left => 0x79
  | .int, .arithmeticRight => 0x7a
  | .long, .arithmeticRight => 0x7b
  | .int, .logicalRight => 0x7c
  | .long, .logicalRight => 0x7d

def NaNOrder.opcode : FloatingKind → NaNOrder → UInt8
  | .float, .less => 0x95
  | .float, .greater => 0x96
  | .double, .less => 0x97
  | .double, .greater => 0x98

/-- The place of a comparison among the branch opcodes of one kind. -/
def Comparison.rank : Comparison → UInt8
  | .eq => 0
  | .ne => 1
  | .lt => 2
  | .ge => 3
  | .gt => 4
  | .le => 5

def Equality.rank : Equality → UInt8
  | .eq => 0
  | .ne => 1

def FieldAccess.opcode : FieldAccess → UInt8
  | .getStatic => 0xb2
  | .putStatic => 0xb3
  | .getField => 0xb4
  | .putField => 0xb5

def InvokeMode.opcode : InvokeMode → UInt8
  | .virtualCall => 0xb6
  | .specialCall => 0xb7
  | .staticCall => 0xb8
  | .interfaceCall => 0xb9

def Instruction.opcode? : Instruction → Option UInt8
  | .plain op => some op.opcode
  | .bipush _ => some 0x10
  | .sipush _ => some 0x11
  | .ldc value => some value.opcode
  | .load kind _ => some kind.loadOpcode
  | .store kind _ => some kind.storeOpcode
  | .shift kind s => some (s.opcode kind)
  | .iinc _ _ => some 0x84
  | .compare kind nan => some (nan.opcode kind)
  | .ifInt c _ => some (0x99 + c.rank)
  | .ifIntCompare c _ => some (0x9f + c.rank)
  | .ifRefCompare c _ => some (0xa5 + c.rank)
  | .ifNull c _ => some (0xc6 + c.rank)
  | .goto _ => some 0xa7
  | .tableSwitch _ _ _ => some 0xaa
  | .lookupSwitch _ _ => some 0xab
  | .field access _ => some access.opcode
  | .invoke mode _ => some mode.opcode
  | .invokeDynamic _ _ => some 0xba
  | .new _ => some 0xbb
  | .newArray _ => some 0xbc
  | .aNewArray _ => some 0xbd
  | .checkCast _ => some 0xc0
  | .instanceOf _ => some 0xc1
  | .multiANewArray _ _ => some 0xc5
  | .label _ => none
  | .lineNumber _ _ => none

/-- A label or a line number. -/
def Instruction.isPseudo (i : Instruction) : Bool :=
  i.opcode?.isNone

end ClosedWorld
