/-!
# Numerals

Numbers are written in a base up to sixteen, with small letters for the digits from ten on. They are
read with letters of either case, with any number of leading zeros, and with a sign.
-/

namespace ClosedWorld.Numeral

/-- The value of a digit in a base. -/
def digit? (base : Nat) (c : Char) : Option Nat :=
  ("0123456789abcdef".toList.idxOf? c.toLower).filter (· < base)

/-- The number that one digit or more denote. -/
def digits? (base : Nat) (cs : List Char) : Option Nat :=
  if cs.isEmpty then none
  else cs.foldlM (fun n c => (digit? base c).map (n * base + ·)) 0

/-- Reads a number that may have a plus sign. -/
def unsigned? (base : Nat) : List Char → Option Nat
  | '+' :: cs => digits? base cs
  | cs => digits? base cs

/-- Reads a number that may have a plus or a minus sign. -/
def signed? (base : Nat) : List Char → Option Int
  | '-' :: cs => (digits? base cs).map fun n => -(n : Int)
  | cs => (unsigned? base cs).map Int.ofNat

/-- Writes a number in at least `width` digits. -/
def padded (base width n : Nat) : List Char :=
  let digits := Nat.toDigits base n
  List.replicate (width - digits.length) '0' ++ digits

end ClosedWorld.Numeral
