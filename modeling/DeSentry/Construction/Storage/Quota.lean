import DeSentry.Construction.Common.Status
import DeSentry.Framework.KeyedList

/-!
# Quotas (`storage/router.cpp`, `storage/engines/engine_common.cpp`)

The quota of a node is split twice.  A percentage of it goes to the data plane, and
`StorageRouter::Open` deals that share out to the backends in whole mebibytes.  A backend charges
every write against its own budget, of which zero means that there is no limit; a merge may overdraw
it by a few percent.
-/

namespace DeSentry

open ByteCodec

/-! ## The split -/

namespace StorageRouter

/-- The fields of `StorageRouter::Options` that the split reads. -/
structure Options where
  quotaMb : UInt64 := 0
  dbSharePct : UInt32 := 60
  engines : List Bytes := []
  defaultEngine : Bytes := text "kv"
  deriving DecidableEq, Repr

/-- `kMiB`. -/
def kMiB : UInt64 := 1024 * 1024

/-- `std::unique`: of neighbours that are equal the first stays. -/
def unique : List Bytes → List Bytes
  | [] => []
  | [x] => [x]
  | x :: y :: rest => if x = y then unique (y :: rest) else x :: unique (y :: rest)

namespace Options

variable (o : Options)

/-- The `db_bytes` of `Open`, in 64-bit arithmetic. -/
def dbBytes : UInt64 :=
  if o.quotaMb = 0 then 0 else o.quotaMb * 1024 * 1024 * o.dbSharePct.toUInt64 / 100

/-- The engines that `Open` registers. -/
def engineNames : List Bytes :=
  let engines := if o.engines = [] then [text "kv"] else o.engines
  let engines := if o.defaultEngine ∈ engines then engines else engines ++ [o.defaultEngine]
  unique (KeyedList.sortBy id engines)

/-- The `total_mb` of `Open`. -/
def totalMb : UInt64 := if o.dbBytes = 0 then 0 else (o.dbBytes + kMiB - 1) / kMiB

/-- The `engine_mb` of the `i`-th of `n` engines. -/
def engineMb (n i : ℕ) : UInt64 :=
  let base := if n = 0 then 0 else o.totalMb / UInt64.ofNat n
  let extra := if n = 0 then 0 else o.totalMb % UInt64.ofNat n
  base + if UInt64.ofNat i < extra then 1 else 0

/-- The engines with the budgets that `RegisterBackend` is given. -/
def budgets : List (Bytes × UInt64) :=
  o.engineNames.mapIdx fun i engine => (engine, o.engineMb o.engineNames.length i)

end Options

end StorageRouter

/-! ## Charging -/

/-- The quota fields of `BaseBackend`. -/
structure BackendQuota where
  quotaBytes : UInt64 := 0
  bytesUsed : UInt64 := 0
  deriving DecidableEq, Repr

namespace BackendQuota

/-- `kMergeOverdraftPercent`. -/
def kMergeOverdraftPercent : UInt64 := 5

/-- What the `Open` of a backend makes of its budget. -/
def ofMb (quotaMb bytesUsed : UInt64) : BackendQuota := ⟨quotaMb * 1024 * 1024, bytesUsed⟩

/-- `RecordCost`. -/
def recordCost (key doc : Bytes) : UInt64 :=
  UInt64.ofNat key.length + UInt64.ofNat doc.length + 32

variable (q : BackendQuota)

/-- The `ceiling` of `Charge`. -/
def ceiling (inMergeScope : Bool) : UInt64 :=
  if inMergeScope then q.quotaBytes + q.quotaBytes / 100 * kMergeOverdraftPercent else q.quotaBytes

/-- `Charge`. -/
def charge (inMergeScope : Bool) (oldCost newCost : UInt64) : Except Status Unit × BackendQuota :=
  if newCost ≤ oldCost then
    let freed := oldCost - newCost
    (.ok (), { q with bytesUsed := if freed > q.bytesUsed then 0 else q.bytesUsed - freed })
  else
    let growth := newCost - oldCost
    if q.quotaBytes = 0 then (.ok (), { q with bytesUsed := q.bytesUsed + growth })
    else if q.bytesUsed + growth > q.ceiling inMergeScope then
      (.error ⟨.outOfSpace, text "quota exceeded: " ++ decimal (q.bytesUsed + growth).toNat ++
        text " > " ++ decimal (q.ceiling inMergeScope).toNat ++ text " bytes"⟩, q)
    else (.ok (), { q with bytesUsed := q.bytesUsed + growth })

end BackendQuota

end DeSentry
