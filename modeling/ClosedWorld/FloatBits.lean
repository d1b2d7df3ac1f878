/-!
# Floating point constants by their bits

A constant is kept as the bits of its IEEE 754 encoding, so that all its bits survive, and compared
as a number: no NaN equals anything, and the two zeros are equal.
-/

namespace ClosedWorld

/-- A number in IEEE 754 binary32. -/
structure Single where
  bits : UInt32
deriving DecidableEq, Repr

/-- A number in IEEE 754 binary64. -/
structure Double where
  bits : UInt64
deriving DecidableEq, Repr

namespace Single

/-- The encoding without its sign. -/
def magnitude (x : Single) : UInt32 := x.bits &&& 0x7fffffff

/-- All exponent bits are set, and some bit of the fraction. -/
def isNaN (x : Single) : Bool := x.magnitude > 0x7f800000

def agrees (x y : Single) : Bool :=
  !x.isNaN && !y.isNaN && (x == y || (x.magnitude == 0 && y.magnitude == 0))

end Single

namespace Double

/-- The encoding without its sign. -/
def magnitude (x : Double) : UInt64 := x.bits &&& 0x7fffffffffffffff

/-- All exponent bits are set, and some bit of the fraction. -/
def isNaN (x : Double) : Bool := x.magnitude > 0x7ff0000000000000

def agrees (x y : Double) : Bool :=
  !x.isNaN && !y.isNaN && (x == y || (x.magnitude == 0 && y.magnitude == 0))

end Double
end ClosedWorld
