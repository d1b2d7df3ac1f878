import ClosedWorld.World.Index

/-!
# Histories of a world

Every change that a world can undergo, and the worlds that a run of changes leads to from the empty one.
-/

namespace ClosedWorld

inductive Change where
  | register (d : ClassDecl)
  | unregister (id : ClassId)
  | unregisterNamed (name : ClassName)
  | setBody (id : MethodId) (body : Body)
  | link
  | index
  | linkAndIndex
  | dropDerived

namespace World

/-- The world after a change; one that fails can still have an effect. -/
def apply (w : World) : Change → World
  | .register d => (w.register d).2
  | .unregister id => (w.unregister id).2
  | .unregisterNamed name => (w.unregisterNamed name).2
  | .setBody id body => (w.setBody? id body).getD w
  | .link => w.link.2
  | .index => w.index.2
  | .linkAndIndex => w.linkAndIndex.2
  | .dropDerived => w.dropDerived

def run (w : World) (l : List Change) : World := l.foldl apply w

/-- A world that some run of changes makes of an empty one. -/
def Reachable (w : World) : Prop := ∃ settings l, w = (World.empty settings).run l

end World
end ClosedWorld
