/-!
# Names of members and classes

A member name is one unqualified segment. A class name is a non-empty text whose segments between
slashes are all unqualified; the simple name is what stands behind its last slash and the package what
stands before it. Both types carry the proof that their text passed, so a value of either type is valid.
-/

namespace ClosedWorld

inductive SegmentError where
  | empty
  | forbidden (text : String) (c : Char)
  | angleBrackets (text : String)
deriving DecidableEq, Repr

def SegmentError.message : SegmentError → String
  | .empty => "Unqualified name is empty"
  | .forbidden text c => s!"Unqualified name '{text}' contains '{c}'"
  | .angleBrackets text =>
    s!"Unqualified name '{text}' has angle brackets but is not '<init>' or '<clinit>'"

inductive NameError where
  | member (e : SegmentError)
  | emptyClass
  | inClass (text : String) (e : SegmentError)
deriving DecidableEq, Repr

def NameError.message : NameError → String
  | .member e => e.message
  | .emptyClass => "Binary name is empty"
  | .inClass text e => s!"Binary name '{text}': " ++ e.message

/-- The characters that separate parts of descriptors and class names. -/
def isSeparator (c : Char) : Bool :=
  c = '.' || c = ';' || c = '[' || c = '/'

def isAngleBracket (c : Char) : Bool :=
  c = '<' || c = '>'

def specialNames : List (List Char) :=
  ["<init>".toList, "<clinit>".toList]

/-- The first fault of a text as an unqualified segment: emptiness, then the first separator, then
angle brackets outside of the special names. -/
def segmentFault? (cs : List Char) : Option SegmentError :=
  if cs.isEmpty then some .empty
  else match cs.find? isSeparator with
    | some c => some (.forbidden (String.ofList cs) c)
    | none =>
      if !specialNames.contains cs && cs.any isAngleBracket then
        some (.angleBrackets (String.ofList cs))
      else none

/-- The first fault of a text as a class name: emptiness, then the fault of the first bad segment. -/
def classNameFault? (cs : List Char) : Option NameError :=
  if cs.isEmpty then some .emptyClass
  else ((cs.splitOn '/').findSome? segmentFault?).map (.inClass (String.ofList cs))

/-- The parts before and behind the last occurrence of a character, if there is one. -/
def splitAtLast? (sep : Char) : List Char → Option (List Char × List Char)
  | [] => none
  | c :: cs =>
    match splitAtLast? sep cs with
    | some (before, behind) => some (c :: before, behind)
    | none => if c = sep then some ([], cs) else none

structure MemberName where
  text : String
  valid : segmentFault? text.toList = none
deriving DecidableEq, Repr

namespace MemberName

def ofString (text : String) : Except NameError MemberName :=
  match h : segmentFault? text.toList with
  | none => .ok ⟨text, h⟩
  | some e => .error (.member e)

def constructor : MemberName :=
  ⟨"<init>", by decide +kernel⟩

def classInitializer : MemberName :=
  ⟨"<clinit>", by decide +kernel⟩

end MemberName

/-- The name of a class or an interface, with slashes between packages. -/
structure ClassName where
  text : String
  valid : classNameFault? text.toList = none
deriving DecidableEq, Repr

namespace ClassName

def ofString (text : String) : Except NameError ClassName :=
  match h : classNameFault? text.toList with
  | none => .ok ⟨text, h⟩
  | some e => .error e

/-- The root of the class hierarchy. -/
def object : ClassName :=
  ⟨"java/lang/Object", by decide +kernel⟩

def string : ClassName :=
  ⟨"java/lang/String", by decide +kernel⟩

/-- The part behind the last slash, or the whole name. -/
def simpleName (n : ClassName) : String :=
  match splitAtLast? '/' n.text.toList with
  | some (_, simple) => String.ofList simple
  | none => n.text

/-- What stands before the last slash, if there is one. -/
def package? (n : ClassName) : Option String :=
  (splitAtLast? '/' n.text.toList).map fun (front, _) => String.ofList front

/-- Names are ordered by code points. -/
def sort (names : List ClassName) : List ClassName :=
  names.mergeSort fun a b => decide (a.text ≤ b.text)

end ClassName

end ClosedWorld
