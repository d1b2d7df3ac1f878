import ClosedWorld.Descriptor.Format

/-!
# Reading by byte offsets

A scanner is a text and a number of bytes. To look at what lies ahead it cuts the text at that byte, and
there is nothing to cut where no character starts. A scan that ends in an error takes nothing back, so the
offset stays where it was at that moment. Nothing in the layout keeps the offset between characters or
within the text, and nothing but a number of rounds ends a loop.
-/

namespace ClosedWorld

/-- The two parts of a text, unless the byte lies inside of a character or behind the end. -/
def splitAtByte? : Nat → List Char → Option (List Char × List Char)
  | 0, cs => some ([], cs)
  | _ + 1, [] => none
  | n + 1, c :: cs =>
    if c.utf8Size ≤ n + 1 then
      (splitAtByte? (n + 1 - c.utf8Size) cs).map fun (before, behind) => (c :: before, behind)
    else none

/-- The byte at which the first occurrence of a character starts. -/
def findByte? (c : Char) : List Char → Option Nat
  | [] => none
  | d :: ds => if d = c then some 0 else (findByte? c ds).map (d.utf8Size + ·)

structure Scanner where
  source : String
  offset : Nat := 0
deriving DecidableEq, Repr

namespace Scanner

def sliceFrom? (c : Scanner) (start : Nat) : Option (List Char) :=
  (splitAtByte? start c.source.toList).map (·.2)

def slice? (c : Scanner) (start stop : Nat) : Option (List Char) :=
  if start ≤ stop then
    (c.sliceFrom? start).bind fun cs => (splitAtByte? (stop - start) cs).map (·.1)
  else none

/-- What a scan must never run into. -/
inductive Fault where
  /-- The text cannot be cut there. -/
  | slice (start : Nat)
  /-- A number would become negative. -/
  | underflow
  /-- A loop is not done after all of its rounds. -/
  | unfinished
deriving DecidableEq, Repr

/-- Why a scan ends without a value. -/
inductive Stop where
  | error (e : DescriptorError)
  | fault (f : Fault)
deriving DecidableEq, Repr

end Scanner

/-- A step of scanning, which leaves the scanner as it is where it ends. -/
abbrev Scan := EStateM Scanner.Stop Scanner

namespace Scan
open Scanner

def fail {α : Type} (e : DescriptorError) : Scan α := throw (.error e)

def breakOff {α : Type} (f : Fault) : Scan α := throw (.fault f)

def offset : Scan Nat := return (← get).offset

def skip (bytes : Nat) : Scan Unit := modify fun c => { c with offset := c.offset + bytes }

/-- The text behind the offset. -/
def ahead : Scan (List Char) := do
  let c ← get
  match c.sliceFrom? c.offset with
  | none => breakOff (.slice c.offset)
  | some cs => return cs

def between (start stop : Nat) : Scan (List Char) := do
  match (← get).slice? start stop with
  | none => breakOff (.slice start)
  | some cs => return cs

def peek : Scan (Option Char) := return (← ahead).head?

def bump : Scan Char := do
  match ← peek with
  | none => fail (.unexpectedEnd (← offset))
  | some c => do
    skip c.utf8Size
    return c

/-- A wrong character is consumed as well. -/
def expect (c : Char) : Scan Unit := do
  let start ← offset
  let found ← bump
  if found = c then return else fail (.unexpected found start)

def unexpected {α : Type} : Scan α := do
  match ← peek with
  | some found => fail (.unexpected found (← offset))
  | none => fail (.unexpectedEnd (← offset))

def baseType : Scan BaseType := do
  match (← peek).bind BaseType.ofLetter? with
  | none => unexpected
  | some b => do
    let _ ← bump
    return b

/-- The offset moves past the semicolon before the name is looked at. -/
def nameToSemicolon : Scan ClassName := do
  let start ← offset
  match findByte? ';' (← ahead) with
  | none => fail (.unexpectedEnd (← get).source.utf8ByteSize)
  | some length => do
    skip (length + 1)
    match ClassName.ofString (String.ofList (← between start (start + length))) with
    | .error e => fail (.className start e)
    | .ok n => return n

def className : Scan ClassName := do
  expect 'L'
  nameToSemicolon

def brackets : Nat → Scan Nat
  | 0 => breakOff .unfinished
  | rounds + 1 => do
    if (← peek) = some '[' then
      let _ ← bump
      return (← brackets rounds) + 1
    else return 0

def element : Scan Element := do
  if (← peek) = some 'L' then return .object (← className)
  else return .base (← baseType)

def refType (rounds : Nat) : Scan RefType := do
  if (← peek) = some '[' then
    match ← brackets rounds with
    | 0 => breakOff .underflow
    | extra + 1 => return .array (← element) extra
  else return .object (← className)

def fieldType (rounds : Nat) : Scan FieldType := do
  let next ← peek
  if next = some 'L' ∨ next = some '[' then return (← refType rounds).type
  else return .base (← baseType)

/-- Reads field types as far as the closing parenthesis, which stays ahead. -/
def parameters (rounds : Nat) : Nat → Scan (List FieldType)
  | 0 => breakOff .unfinished
  | left + 1 => do
    match ← peek with
    | none => unexpected
    | some ')' => return []
    | some _ => do
      let t ← fieldType rounds
      return t :: (← parameters rounds left)

def returnType (rounds : Nat) : Scan (Option FieldType) := do
  if (← peek) = some 'V' then
    let _ ← bump
    return none
  else return some (← fieldType rounds)

def methodDescriptor (rounds : Nat) : Scan MethodDescriptor := do
  expect '('
  let ps ← parameters rounds rounds
  expect ')'
  return ⟨ps, ← returnType rounds⟩

end Scan

namespace DescriptorKind
open Scanner

def scan (rounds : Nat) : (k : DescriptorKind) → Scan k.Value
  | base => Scan.baseType
  | classRef => Scan.className
  | ref => Scan.refType rounds
  | field => Scan.fieldType rounds
  | method => Scan.methodDescriptor rounds

/-- The scanner after a scan, successful or not. -/
def scanOn (rounds : Nat) (c : Scanner) (k : DescriptorKind) : Except Fault Scanner :=
  match (k.scan rounds).run c with
  | .ok _ c' => .ok c'
  | .error (.error _) c' => .ok c'
  | .error (.fault f) _ => .error f

def scanAll (rounds : Nat) (l : List DescriptorKind) (c : Scanner) : Except Fault Scanner :=
  l.foldlM (scanOn rounds) c

end DescriptorKind
end ClosedWorld
