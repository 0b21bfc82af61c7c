/-
  Plans: what one build has to do.

  * a `Group` holds units that are compiled together, each with its source, and the
    groups that have to be compiled before it;
  * a `Plan` has the groups with the outputs to delete and the units to forget;
  * a `Policy` says when a build gives up on selecting and compiles everything.
-/
import Rebuild.Graph
import Rebuild.Binary64

namespace Rebuild

/-- When everything is compiled although the changes are known. -/
structure Policy where
  /-- The largest part of all units that is still selected. -/
  fraction : Binary64 := Binary64.round false 9 10
  /-- The largest number of units in a group; zero for no limit. -/
  groupLimit : Nat := 0

/-- How a plan came about. -/
inductive PlanKind
  /-- From the changes. -/
  | incremental
  /-- Everything is compiled. -/
  | full
deriving DecidableEq, Repr

/-- Units that are compiled together. -/
structure Group where
  /-- The source of each unit. -/
  units : TextMap Text
  sources : TextSet
  /-- The groups that hold a direct dependency of one of the units. -/
  needs : NodeSet

/-- What a build has to do. -/
structure Plan where
  kind : PlanKind
  reason : Text
  changes : Changes
  groups : List Group
  /-- The units to compile. -/
  units : TextSet
  /-- Their sources. -/
  sources : TextSet
  /-- The outputs to delete before compiling. -/
  delete : TextSet
  /-- The recorded units to forget. -/
  purged : TextSet
  /-- What the sources look like. -/
  snapshots : Snapshots
  /-- The number of units after the build. -/
  total : Nat

namespace Plan

/-- Nothing is to be compiled, deleted or forgotten. -/
def isEmpty (p : Plan) : Bool := p.groups.isEmpty && p.delete.isEmpty && p.purged.isEmpty

end Plan

end Rebuild
