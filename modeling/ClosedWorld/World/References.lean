import ClosedWorld.Graph.Edges
import ClosedWorld.World.Id

/-!
# References

What method bodies and field types refer to, one edge for each occurrence, in the order of the walk
that found them. Strings are listed at the class that has them and fields at the class that their type
mentions, not at the other end.
-/

namespace ClosedWorld

structure References where
  calls : Edges MethodId MethodId := {}
  reads : Edges MethodId FieldId := {}
  writes : Edges MethodId FieldId := {}
  /-- From each method to the classes that its body refers to, owners of members included. -/
  types : Edges MethodId ClassId := {}
  /-- From each class to the string constants of its methods. -/
  strings : Arrows ClassId String := []
  /-- From each field to the class that its type mentions. -/
  fieldTypes : Arrows FieldId ClassId := []
deriving DecidableEq

namespace References

def dropClass (r : References) (c : ClassId) : References :=
  { r with
    types := r.types.dropTarget c
    strings := r.strings.filter (·.1 ≠ c)
    fieldTypes := r.fieldTypes.filter (·.2 ≠ c) }

def dropMethod (r : References) (m : MethodId) : References :=
  { r with
    calls := r.calls.dropVertex m
    reads := r.reads.dropSource m
    writes := r.writes.dropSource m
    types := r.types.dropSource m }

/-- Takes a field out with all that it lists. A field does not list the class of its type, so the class
is given. -/
def dropField (r : References) (f : FieldId) (type? : Option ClassId) : References :=
  { r with
    reads := r.reads.dropTarget f
    writes := r.writes.dropTarget f
    fieldTypes := r.fieldTypes.filter fun x => ¬(x.1 = f ∧ type? = some x.2) }

end References
end ClosedWorld
