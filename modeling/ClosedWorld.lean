import ClosedWorld.Instruction.Form
import ClosedWorld.Workbench
import ClosedWorld.World.History
import ClosedWorld.World.Query
import ClosedWorld.World.Store
import ClosedWorld.Pattern.Machine
import ClosedWorld.Proofs.Graph.DepthFirst
import ClosedWorld.Proofs.Graph.Edges
import ClosedWorld.Proofs.Graph.Reach
import ClosedWorld.Proofs.World.Edit
import ClosedWorld.Proofs.World.WellFormed
import ClosedWorld.Proofs.World.Hierarchy
import ClosedWorld.Proofs.World.Supertypes
import ClosedWorld.Proofs.World.Defaults
import ClosedWorld.Proofs.World.InheritedFields
import ClosedWorld.Proofs.World.Linking
import ClosedWorld.Proofs.World.Moves
import ClosedWorld.Proofs.World.Store
import ClosedWorld.Proofs.World.Identifiers
import ClosedWorld.Proofs.World.Ledger
import ClosedWorld.Proofs.World.Linked
import ClosedWorld.Proofs.World.Cycles
import ClosedWorld.Proofs.World.Findings
import ClosedWorld.Proofs.World.Closed
import ClosedWorld.Proofs.World.Removal
import ClosedWorld.Proofs.Descriptor.RoundTrip
import ClosedWorld.Proofs.Pattern.Pieces
import ClosedWorld.Proofs.Pattern.Round
import ClosedWorld.Proofs.Pattern.Sweep
import ClosedWorld.Proofs.Pattern.Rewriting
import ClosedWorld.Proofs.Pattern.Registers
import ClosedWorld.Proofs.Pattern.Phases
import ClosedWorld.Proofs.Graph.Renaming
import ClosedWorld.Proofs.World.InterfaceOrder
import ClosedWorld.Proofs.World.Renaming
import ClosedWorld.Proofs.World.Mirror
import ClosedWorld.Proofs.World.Fresh
import ClosedWorld.Proofs.World.Subtypes
import ClosedWorld.Proofs.World.Balance
import ClosedWorld.Proofs.World.Following
import ClosedWorld.Proofs.World.RegistrationOrder
import ClosedWorld.Proofs.Pattern.Revisions
import ClosedWorld.Proofs.Pattern.Identities
import ClosedWorld.Proofs.Pattern.Machine
import ClosedWorld.Proofs.Pattern.Acts
import ClosedWorld.Proofs.Pattern.Retries
import ClosedWorld.Proofs.Pattern.Commits
import ClosedWorld.Proofs.Pattern.Leftmost
import ClosedWorld.Proofs.Graph.Layers
import ClosedWorld.Proofs.World.Superinterfaces
import ClosedWorld.Proofs.Descriptor.ErrorPositions
import ClosedWorld.Proofs.World.InheritedMethods
import ClosedWorld.World.Rounds
import ClosedWorld.Proofs.World.Soundness
import ClosedWorld.Proofs.World.Rounds
import ClosedWorld.Descriptor.Scanner
import ClosedWorld.Proofs.Descriptor.Scanner
import ClosedWorld.Proofs.World.MethodNames
import ClosedWorld.Proofs.Name.Packages
import ClosedWorld.Descriptor.Flat
import ClosedWorld.Proofs.Pattern.OpcodeSet
import ClosedWorld.Proofs.Descriptor.Flat
