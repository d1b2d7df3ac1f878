import ClosedWorld.World.Resolver

/-!
# Searching round by round

The searches of a resolver without knowledge of the size of the hierarchy. The loops that climb to
superclasses remember nothing of what they have met, and those that spread to superinterfaces remember
what they have visited; neither counts edges. Each loop is given a number of rounds, and there is no
answer if it is not done after that many.
-/

namespace ClosedWorld

namespace Graph
variable {α β : Type}

/-- The vertices above `a`, each the only successor of the one before. -/
def climb? (next? : α → Option α) : Nat → α → Option (List α)
  | 0, _ => none
  | rounds + 1, a =>
    match next? a with
    | none => some []
    | some b => (climb? next? rounds b).map (b :: ·)

/-- The first hit above `a`, behind which nothing is looked at. -/
def climbTo? (next? : α → Option α) (hit? : α → Option β) : Nat → α → Option (Option β)
  | 0, _ => none
  | rounds + 1, a =>
    match next? a with
    | none => some none
    | some b =>
      match hit? b with
      | none => climbTo? next? hit? rounds b
      | some x => some (some x)

/-- The vertices that are visited breadth first, with a round for each that leaves the queue. -/
def spread? [DecidableEq α] (next : α → List α) : Nat → List α → List α → Option (List α)
  | 0, _, _ => none
  | _ + 1, _, [] => some []
  | rounds + 1, seen, a :: queue =>
    if seen.contains a then spread? next rounds seen queue
    else (spread? next rounds (a :: seen) (queue ++ next a)).map (a :: ·)

end Graph

namespace Hierarchy

def superclassesIn? (h : Hierarchy) (rounds : Nat) (c : ClassId) : Option (List ClassId) :=
  Graph.climb? h.parent? rounds c

def interfacesFromIn? (h : Hierarchy) (rounds : Nat) (queue : List ClassId) : Option (List ClassId) :=
  Graph.spread? h.interfacesOf rounds [] queue

def ownSuperinterfacesIn? (h : Hierarchy) (rounds : Nat) (c : ClassId) : Option (List ClassId) :=
  h.interfacesFromIn? rounds (h.interfacesOf c)

def superinterfacesIn? (h : Hierarchy) (rounds : Nat) (c : ClassId) : Option (List ClassId) := do
  let above ← h.superclassesIn? rounds c
  h.interfacesFromIn? rounds ((c :: above).flatMap h.interfacesOf)

def isSubinterfaceIn? (h : Hierarchy) (rounds : Nat) (sub sup : ClassId) : Option Bool :=
  if sub = sup then some false
  else (h.ownSuperinterfacesIn? rounds sub).map (·.contains sup)

/-- Superinterfaces are looked at only if no superclass is the one that is due. -/
def isAssignableIn? (h : Hierarchy) (rounds : Nat) (sub sup : ClassId) : Option Bool :=
  if sub = sup then some true
  else do
    let met? ← Graph.climbTo? h.parent? (fun c => if c = sup then some c else none) rounds sub
    if met?.isSome then some true
    else (h.superinterfacesIn? rounds sub).map (·.contains sup)

end Hierarchy

namespace Resolver

/-- What a class does not declare is looked for in its own interfaces, then above it. -/
def fieldIn? (r : Resolver) (rounds : Nat) (c : ClassId) (name : MemberName) (t : FieldType) :
    Option (Option (Declared FieldEntry)) :=
  match r.declaredField? name t c with
  | some f => some (some f)
  | none => do
    let interfaces ← r.hierarchy.ownSuperinterfacesIn? rounds c
    match interfaces.findSome? (r.declaredField? name t) with
    | some f => some (some f)
    | none => Graph.climbTo? r.hierarchy.parent? (r.declaredField? name t) rounds c

def mostSpecificIn? (r : Resolver) (rounds : Nat) (l : List (Declared MethodEntry)) :
    Option (List (Declared MethodEntry)) :=
  l.filterM fun m => do
    let extended ← l.anyM fun n => r.hierarchy.isSubinterfaceIn? rounds n.owner m.owner
    pure !extended

def survivorsIn? (r : Resolver) (rounds : Nat) (l : List (Declared MethodEntry)) :
    Option (List (Declared MethodEntry)) := do
  match ← r.mostSpecificIn? rounds l with
  | [] => some l
  | specific => some specific

def defaultMethodIn? (r : Resolver) (rounds : Nat) (c : ClassId) (name : MemberName)
    (d : MethodDescriptor) : Option (Option (Declared MethodEntry)) := do
  let interfaces ← r.hierarchy.superinterfacesIn? rounds c
  match (interfaces.filterMap (r.declaredMethod? name d)).filter Declared.isHeritable with
  | [] => some none
  | [m] => some (some m)
  | candidates =>
    match preferConcrete candidates with
    | [m] => some (some m)
    | preferred => (r.survivorsIn? rounds preferred).map (·.minOn? (·.owner.val))

/-- A call through an interface looks at the nearest superclass only. -/
def inheritedMethodIn? (r : Resolver) (rounds : Nat) (c : ClassId) (name : MemberName)
    (d : MethodDescriptor) : Bool → Option (Option (Declared MethodEntry))
  | true => some (r.inheritedMethod? c name d true)
  | false => Graph.climbTo? r.hierarchy.parent? (r.declaredMethod? name d) rounds c

def methodIn? (r : Resolver) (rounds : Nat) (c : ClassId) (name : MemberName)
    (d : MethodDescriptor) (throughInterface : Bool) : Option (Option (Declared MethodEntry)) :=
  match r.declaredMethod? name d c with
  | some m => some (some m)
  | none => do
    match ← r.inheritedMethodIn? rounds c name d throughInterface with
    | some m => some (some m)
    | none => r.defaultMethodIn? rounds c name d

def fieldOfIn? (r : Resolver) (rounds : Nat) (ref : FieldRef) : Option (Option (Declared FieldEntry)) :=
  match r.world.lookup? ref.owner with
  | none => some none
  | some c => r.fieldIn? rounds c ref.name ref.type

def methodOfIn? (r : Resolver) (rounds : Nat) (ref : MethodRef) :
    Option (Option (Declared MethodEntry)) :=
  match r.world.lookup? ref.owner with
  | none => some none
  | some c => r.methodIn? rounds c ref.name ref.descriptor ref.ownerIsInterface

end Resolver
end ClosedWorld
