import ClosedWorld.World.Edit

/-!
# Linking

Linking derives the hierarchy from the names in the declarations. Names of classes outside of the world
give no edge. A hierarchy with a cycle is refused.
-/

namespace ClosedWorld.World

/-- The hierarchy that the declarations describe. -/
def declaredHierarchy (w : World) : Hierarchy where
  parents := .ofList <| w.classes.filterMap fun c => (c.super?.bind w.lookup?).map (c.id, ·)
  interfaces := .ofList <| w.classes.flatMap fun c =>
    (c.interfaces.filterMap w.lookup?).eraseDups.map (c.id, ·)

/-- Derives the hierarchy anew and drops the references. After an error nothing is derived. -/
def link (w : World) : Except WorldError Unit × World :=
  let w := w.dropDerived
  let h := w.declaredHierarchy
  match (h.cycle? w.ids).bind w.class? with
  | some c => (.error (.cyclicInheritance c.name), w)
  | none => (.ok (), { w with hierarchy := h, stage := .linked })

end ClosedWorld.World
