/-!
# Instructions without operands

Constants, array accesses, stack shuffles, arithmetic, conversions, returns and monitors. Each is
determined by its opcode alone.
-/

namespace ClosedWorld

inductive PlainOp where
  | nop | aconstNull | iconstM1 | iconst0 | iconst1 | iconst2 | iconst3 | iconst4 | iconst5
  | lconst0 | lconst1 | fconst0 | fconst1 | fconst2 | dconst0 | dconst1 | iaload | laload
  | faload | daload | aaload | baload | caload | saload | iastore | lastore | fastore | dastore
  | aastore | bastore | castore | sastore | pop | pop2 | dup | dupX1 | dupX2 | dup2 | dup2X1
  | dup2X2 | swap | iadd | ladd | fadd | dadd | isub | lsub | fsub | dsub | imul | lmul | fmul
  | dmul | idiv | ldiv | fdiv | ddiv | irem | lrem | frem | drem | ineg | lneg | fneg | dneg
  | iand | land | ior | lor | ixor | lxor | i2l | i2f | i2d | l2i | l2f | l2d | f2i | f2l | f2d
  | d2i | d2l | d2f | i2b | i2c | i2s | lcmp | ireturn | lreturn | freturn | dreturn | areturn
  | returnVoid | arraylength | athrow | monitorenter | monitorexit
deriving DecidableEq

namespace PlainOp

def opcode : PlainOp → UInt8
  | nop => 0x00
  | aconstNull => 0x01
  | iconstM1 => 0x02
  | iconst0 => 0x03
  | iconst1 => 0x04
  | iconst2 => 0x05
  | iconst3 => 0x06
  | iconst4 => 0x07
  | iconst5 => 0x08
  | lconst0 => 0x09
  | lconst1 => 0x0a
  | fconst0 => 0x0b
  | fconst1 => 0x0c
  | fconst2 => 0x0d
  | dconst0 => 0x0e
  | dconst1 => 0x0f
  | iaload => 0x2e
  | laload => 0x2f
  | faload => 0x30
  | daload => 0x31
  | aaload => 0x32
  | baload => 0x33
  | caload => 0x34
  | saload => 0x35
  | iastore => 0x4f
  | lastore => 0x50
  | fastore => 0x51
  | dastore => 0x52
  | aastore => 0x53
  | bastore => 0x54
  | castore => 0x55
  | sastore => 0x56
  | pop => 0x57
  | pop2 => 0x58
  | dup => 0x59
  | dupX1 => 0x5a
  | dupX2 => 0x5b
  | dup2 => 0x5c
  | dup2X1 => 0x5d
  | dup2X2 => 0x5e
  | swap => 0x5f
  | iadd => 0x60
  | ladd => 0x61
  | fadd => 0x62
  | dadd => 0x63
  | isub => 0x64
  | lsub => 0x65
  | fsub => 0x66
  | dsub => 0x67
  | imul => 0x68
  | lmul => 0x69
  | fmul => 0x6a
  | dmul => 0x6b
  | idiv => 0x6c
  | ldiv => 0x6d
  | fdiv => 0x6e
  | ddiv => 0x6f
  | irem => 0x70
  | lrem => 0x71
  | frem => 0x72
  | drem => 0x73
  | ineg => 0x74
  | lneg => 0x75
  | fneg => 0x76
  | dneg => 0x77
  | iand => 0x7e
  | land => 0x7f
  | ior => 0x80
  | lor => 0x81
  | ixor => 0x82
  | lxor => 0x83
  | i2l => 0x85
  | i2f => 0x86
  | i2d => 0x87
  | l2i => 0x88
  | l2f => 0x89
  | l2d => 0x8a
  | f2i => 0x8b
  | f2l => 0x8c
  | f2d => 0x8d
  | d2i => 0x8e
  | d2l => 0x8f
  | d2f => 0x90
  | i2b => 0x91
  | i2c => 0x92
  | i2s => 0x93
  | lcmp => 0x94
  | ireturn => 0xac
  | lreturn => 0xad
  | freturn => 0xae
  | dreturn => 0xaf
  | areturn => 0xb0
  | returnVoid => 0xb1
  | arraylength => 0xbe
  | athrow => 0xbf
  | monitorenter => 0xc2
  | monitorexit => 0xc3

end PlainOp
end ClosedWorld
