import DeSentry.Construction.Storage.Catalog
import DeSentry.Construction.Storage.Wal

/-!
# The storage engine (`storage/router.h`, `storage/storage_engine.h`)

The router sends a collection to one of several backends; the engine puts the ledger in front of
it.  A write is appended to the ledger first and handed to the backend second, and `Open` replays
the ledger into the backends.

A backend is its rows: the map from collection and key to bytes that `Put` updates and `Get`
reads.  How it lays the rows out in pages is not part of this file.  Whether a `Put` is refused
(quota, a full buffer pool, an I/O error) is decided by the environment, and a refused `Put`
changes nothing.  The cross-engine index is written by every `Put` and read by none of the
functions here, so it is left out.
-/

namespace DeSentry

open ByteCodec

/-! ## The router -/

/-- The rows of a backend, by collection and key. -/
abbrev Rows := List ((Bytes × Bytes) × Bytes)

/-- `class StorageRouter`: the backends by name. -/
structure StorageRouter where
  defaultEngine : Bytes := text "kv"
  backends : List (Bytes × Rows) := [(text "kv", [])]
  deriving DecidableEq, Repr

namespace StorageRouter

variable (router : StorageRouter) (catalog : Catalog) (collection : Bytes)

/-- `EngineNameFor`. -/
def engineNameFor : Bytes :=
  match catalog.get collection with
  | some entry => if entry.engine ≠ [] then entry.engine else router.defaultEngine
  | none => router.defaultEngine

/-- `BackendFor`. -/
def backendFor : Option Rows :=
  AssocMap.get router.backends (router.engineNameFor catalog collection)

/-- The answer for a collection bound to an engine that is not there. -/
def noBackend : Status :=
  ⟨.invalidArgument, text "no available backend for collection " ++ collection⟩

/-- `Put`; the backend may refuse. -/
def put (refusal : Option Status) (collection key doc : Bytes) :
    Except Status Unit × StorageRouter :=
  match router.backendFor catalog collection with
  | none => (.error (noBackend collection), router)
  | some rows =>
    match refusal with
    | some st => (.error st, router)
    | none =>
      (.ok (), { router with
        backends := AssocMap.set router.backends (router.engineNameFor catalog collection)
          (AssocMap.set rows (collection, key) doc) })

/-- `Get`. -/
def get (key : Bytes) : Except Status Bytes :=
  match router.backendFor catalog collection with
  | none => .error (noBackend collection)
  | some rows =>
    match AssocMap.get rows (collection, key) with
    | none => .error ⟨.notFound, text "no such key: " ++ key⟩
    | some doc => .ok doc

end StorageRouter

/-! ## The engine -/

/-- `kMaxKeyBytes`. -/
def kMaxKeyBytes : ℕ := 64

/-- The `kMaxDocBytes` of `PutRaw`: a page without its header and one slot. -/
def kMaxDocBytes : ℕ := 4096 - 4 - 4

/-- `class StorageEngine`, with the files of its ledger. -/
structure StorageEngine where
  quotaBytes : UInt64 := 0
  wal : WriteAheadLog
  disk : WalDisk
  catalog : Catalog
  router : StorageRouter

/-- What happens around a `PutRaw`. -/
structure PutEnv where
  append : AppendEnv := {}
  abort : AppendEnv := {}
  /-- `StorageRouter::QuotaUse`. -/
  routerUse : UInt64 := 0
  refusal : Option Status := none
  saved : Except Status Unit := .ok ()

namespace StorageEngine

variable (s : StorageEngine)

/-- `EnsureCollection`. -/
def ensureCollection (saved : Except Status Unit) (collection : Bytes) :
    Except Status Unit × StorageEngine :=
  if s.catalog.hasCollection collection then (.ok (), s)
  else
    let (st, catalog) := s.catalog.upsertRootPageId saved collection
    (st, { s with catalog })

/-- `GetRaw`. -/
def getRaw (collection key : Bytes) : Except Status Bytes := s.router.get s.catalog collection key

variable (c : Crypto)

/-- `AppendLedgerOp`. -/
def appendLedgerOp (env : AppendEnv) (type : WalRecordType) (collection key payload : Bytes)
    (hlc : HLCTimestamp) (options : AppendOptions) : Except Status Int64 × StorageEngine :=
  let (lsn, wal, disk) := s.wal.append c env s.disk
    { type, collection, key, documentBytes := payload, options := { options with hlc } }
  (lsn, { s with wal, disk })

/-- The size and key checks at the head of `PutRaw`. -/
def checkPut (key doc : Bytes) : Except Status Unit :=
  if key = [] ∨ key.length ≥ kMaxKeyBytes then
    .error ⟨.invalidArgument, text "key length must be in (0, " ++ decimal kMaxKeyBytes ++
      text ") bytes"⟩
  else if doc.length > kMaxDocBytes then
    .error ⟨.invalidArgument, text "document too large for a page (" ++ decimal doc.length ++
      text " bytes)"⟩
  else .ok ()

/-- The quota check of `PutRaw`: the write is charged twice, on top of what is in use. -/
def checkQuota (routerUse : UInt64) (key doc : Bytes) : Except Status Unit :=
  let used := routerUse + UInt64.ofNat s.disk.file.length
  let projected := used + 2 * (UInt64.ofNat key.length + UInt64.ofNat doc.length)
  if s.quotaBytes > 0 ∧ projected > s.quotaBytes then
    .error ⟨.outOfSpace, text "node quota exceeded: " ++ decimal projected.toNat ++ text " > " ++
      decimal s.quotaBytes.toNat ++
      text " bytes (raise the node's quota in the app, or free space)"⟩
  else .ok ()

/-- `PutRaw` behind its checks: the ledger, then the backend; a refusal is followed by an
`ABORT` record. -/
def writeRow (env : PutEnv) (collection key doc : Bytes) : Except Status Unit × StorageEngine :=
  match s.wal.append c env.append s.disk
      { type := .kPut, collection, key, documentBytes := doc } with
  | (.error st, wal, disk) => (.error st, { s with wal, disk })
  | (.ok _, wal, disk) =>
    match s.router.put s.catalog env.refusal collection key doc with
    | (.error st, _) =>
      let (_, wal, disk) := wal.append c env.abort disk
        { type := .kAbort, collection, key, documentBytes := [] }
      (.error st, { s with wal, disk })
    | (.ok (), router) =>
      (.ok (), (ensureCollection { s with wal, disk, router } env.saved collection).2)

/-- `PutRaw`. -/
def putRaw (env : PutEnv) (collection key doc : Bytes) : Except Status Unit × StorageEngine :=
  match checkPut key doc with
  | .error st => (.error st, s)
  | .ok () =>
    match s.checkQuota env.routerUse key doc with
    | .error st => (.error st, s)
    | .ok () => s.writeRow c env collection key doc

end StorageEngine

/-! ## Recovery -/

/-- The reverse scan of `ReplayLedger`: the puts of keys not seen before. -/
def scanLatest : List (Bytes × Bytes) → List WalRecord → List WalRecord
  | _, [] => []
  | seen, r :: rest =>
    if r.type ≠ .kPut then scanLatest seen rest
    else if (r.collection, r.key) ∈ seen then scanLatest seen rest
    else r :: scanLatest ((r.collection, r.key) :: seen) rest

/-- The `latest_puts` of `ReplayLedger`. -/
def latestPuts (records : List WalRecord) : List WalRecord :=
  (scanLatest [] records.reverse).reverse

/-- What happens around a `ReplayLedger`. -/
structure ReplayEnv where
  /-- `JsonValue::Parse`, on the bytes of an access-control record. -/
  parse : Bytes → Option JsonValue := fun _ => none
  /-- Whether a backend refuses a row. -/
  refusal : WalRecord → Option Status := fun _ => none
  saved : Except Status Unit := .ok ()
  flushed : Except Status Unit := .ok ()

namespace StorageEngine

variable (s : StorageEngine) (env : ReplayEnv) (r : WalRecord)

/-- The access-control branch of `ReplayLedger`. -/
def replayAcl : StorageEngine :=
  if r.type ≠ .kAcl then s
  else
    match env.parse r.documentBytes with
    | none => s
    | some envelope =>
      match envelope.find (text "acl"), (envelope.find (text "updated_ms")).bind
          JsonValue.asNumber with
      | some aclValue, some ms =>
        if !aclValue.isObject then s
        else
          let s := (s.ensureCollection env.saved r.collection).2
          { s with
            catalog := (s.catalog.setAclAt env.saved r.collection (CollectionAcl.decode aclValue)
              ms.toUInt64).2 }
      | _, _ => s

/-- The put branch of `ReplayLedger`: a row that is already current is left alone, one the
backend refuses is skipped. -/
def replayPut : StorageEngine :=
  if s.getRaw r.collection r.key = .ok r.documentBytes then s
  else
    { s with
      router := (s.router.put s.catalog (env.refusal r) r.collection r.key r.documentBytes).2 }

/-- `ReplayLedger` on the records of the ledger. -/
def replayRecords (records : List WalRecord) : StorageEngine :=
  (latestPuts records).foldl (replayPut · env) (records.foldl (replayAcl · env) s)

/-- `ReplayLedger`. -/
def replayLedger (c : Crypto) (env : ReplayEnv) : Except Failure StorageEngine :=
  match s.wal.readAll c s.disk with
  | .error e => .error e
  | .ok records =>
    if records = [] then .ok s
    else
      match env.flushed with
      | .error st => .error (.status st)
      | .ok () => .ok (s.replayRecords env records)

end StorageEngine

/-- What an `Open` finds on disk beside the ledger, and what happens around it. -/
structure EngineOpenEnv where
  wal : OpenEnv := {}
  /-- The contents of `catalog.json`, or why it could not be loaded. -/
  catalog : Except Status Catalog := .ok {}
  /-- The router `StorageRouter::Open` builds from the files of the backends. -/
  router : Except Status StorageRouter := .ok {}
  replay : ReplayEnv := {}

/-- `StorageEngine::Open`. -/
def StorageEngine.openEngine (c : Crypto) (env : EngineOpenEnv) (walFile dek : Bytes)
    (quotaBytes : UInt64) (disk : WalDisk) : Except Failure StorageEngine × WalDisk :=
  match WriteAheadLog.openLog c env.wal walFile dek disk with
  | (.error e, disk) => (.error e, disk)
  | (.ok wal, disk) =>
    match env.catalog, env.router with
    | .error st, _ => (.error (.status st), disk)
    | _, .error st => (.error (.status st), disk)
    | .ok catalog, .ok router =>
      (StorageEngine.replayLedger { quotaBytes, wal, disk, catalog, router } c env.replay, disk)

end DeSentry
