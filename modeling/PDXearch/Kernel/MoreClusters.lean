import PDXearch.Kernel.Batches
import PDXearch.Kernel.FilteredSearch

/-!
# Probing more clusters

A search that is to probe more clusters begins with the probes of the one that is to probe fewer, so
that its heap has seen all that the other's has seen, and more. Whatever the pruner drops, the result
is no shorter and entry by entry no farther away.
-/

namespace PDXearch

open Lib ExactFloat Client

namespace Searcher

section Offers

variable {K E D : Type} [Field K] [LinearOrder K] [LinearOrder D] [Zero E] {S : Searcher K E D}

end Offers

section Search

variable {K E D : Type} [Field K] [LinearOrder K] [LinearOrder D] [Zero E] {S : Searcher K E D}
  {H : Type} [Heap H K]

end Search

end Searcher

end PDXearch
