import DeSentry.Construction.Storage.Wal
import DeSentry.Framework.AssocMap
import DeSentry.Framework.KeyedList

/-!
# The outbox (`ledger/outbox_store.h`)

The writes a node makes while it can reach no peer are staged, one entry for each document, and
replayed once a peer is reachable.  The store is a map from collection and key hash to the entry,
written through to an append log.  Here the log is what its appends answer, and the records are
encoded and decoded; the file itself is the subject of the module on sidecar logs.
-/

namespace DeSentry

open ByteCodec KeyedList ByteWriter

/-- The order in which an unordered map is walked. -/
abbrev MapOrder (α : Type) := { order : List α → List α // ∀ l, (order l).Perm l }

/-- `kOutboxCollection`. -/
def kOutboxCollection : Bytes := text "_outbox"

/-- `struct OutboxEntry`. -/
structure OutboxEntry where
  collection : Bytes
  key : Bytes
  keyHash : Bytes
  encodedDoc : Bytes
  hlc : HLCTimestamp
  createdMs : Int64 := 0
  deriving DecidableEq, Repr

/-! ## Records -/

namespace OutboxEntry

/-- `kOutboxMagic`. -/
def kOutboxMagic : UInt32 := 0x44534E4F

/-- `kOutboxVersion`. -/
def kOutboxVersion : UInt32 := 1

/-- What every record begins with. -/
def header (kind : UInt8) : Bytes :=
  u32 kOutboxMagic ++ u32 kOutboxVersion ++ u8 kind

/-- `EncodeEntry`. -/
def encode (e : OutboxEntry) : Bytes :=
  header 1 ++ bytes e.collection ++ bytes e.key ++
  bytes e.keyHash ++ bytes e.encodedDoc ++
  u64 e.hlc.physicalMs ++ u32 e.hlc.logical ++
  bytes e.hlc.nodeId ++ i64 e.createdMs

/-- `EncodeDropBody`. -/
def encodeDrop (collection keyHash : Bytes) : Bytes :=
  header 2 ++ bytes collection ++ bytes keyHash

/-- A refusal of `Decode`. -/
def corrupt (what : String) : Except Status OutboxEntry := .error ⟨.corruption, text what⟩

/-- `Decode` on the fields of an entry. -/
def readEntry : ByteReader (Except Status OutboxEntry) := do
  let collection ← ByteReader.bytes
  let key ← ByteReader.bytes
  let keyHash ← ByteReader.bytes
  let encodedDoc ← ByteReader.bytes
  let physicalMs ← ByteReader.u64
  let logical ← ByteReader.u32
  let nodeId ← ByteReader.bytes
  let createdMs ← ByteReader.i64
  if (← ByteReader.remaining) ≠ 0 then pure (corrupt "outbox record has trailing bytes")
  else if collection = [] ∨ keyHash.length ≠ kWalHashLen then
    pure (corrupt "outbox record has invalid entry fields")
  else pure (.ok
    { collection, key, keyHash, encodedDoc, hlc := ⟨physicalMs, logical, nodeId⟩, createdMs })

/-- `Decode`, up to the exception handler.  A drop record is answered with an error. -/
def readBody : ByteReader (Except Status OutboxEntry) := do
  let magic ← ByteReader.u32
  if magic ≠ kOutboxMagic then pure (corrupt "outbox record is not an entry")
  else do
    let version ← ByteReader.u32
    if version ≠ kOutboxVersion then pure (corrupt "outbox record has an unsupported version")
    else do
      let kind ← ByteReader.u8
      if kind = 2 then pure (.error ⟨.notFound, text "outbox entry was replayed"⟩)
      else if kind ≠ 1 then pure (corrupt "outbox record has an unknown kind")
      else readEntry

/-- `OutboxStore::Decode`. -/
def decode (body : Bytes) : Except Status OutboxEntry :=
  match readBody.run body with
  | .error what => .error ⟨.corruption, text "outbox record is malformed: " ++ text what⟩
  | .ok (answer, _) => answer

end OutboxEntry

/-! ## The store -/

/-- `MapKey`. -/
def outboxMapKey (collection keyHash : Bytes) : Bytes := collection ++ 0 :: keyHash

/-- `class OutboxStore`. -/
structure OutboxStore where
  entries : List (Bytes × OutboxEntry) := []
  deriving DecidableEq, Repr

namespace OutboxStore

variable (store : OutboxStore) (e : OutboxEntry)

/-- The map with an entry under its key. -/
def insert : OutboxStore :=
  { entries := AssocMap.set store.entries (outboxMapKey e.collection e.keyHash) e }

/-- The checks at the head of `Put`. -/
def checkPut : Except Status Unit :=
  if e.collection = [] then
    .error ⟨.invalidArgument, text "outbox put requires a collection"⟩
  else if e.keyHash.length ≠ kWalHashLen then
    .error ⟨.invalidArgument, text "outbox put requires a 32-byte key_hash"⟩
  else if e.collection = kOutboxCollection then
    .error ⟨.invalidArgument, text "outbox put: cannot write to the outbox collection itself"⟩
  else .ok ()

/-- `Put`; `appended` is the answer of `AppendRecord`. -/
def put (appended : Except Status Unit) (nowMs : Int64) (e : OutboxEntry) :
    Except Status Unit × OutboxStore :=
  match checkPut e with
  | .error st => (.error st, store)
  | .ok () =>
    match appended with
    | .error st => (.error st, store)
    | .ok () => (.ok (), store.insert { e with createdMs := nowMs })

variable (order : MapOrder OutboxEntry)

/-- The entries `DrainAll` returns, the oldest first.  A log that refuses the drop records or the
compaction is only logged. -/
def drained : List OutboxEntry :=
  sortBy (·.createdMs.toInt) (order.1 (store.entries.map Prod.snd))

/-- `DrainAll`. -/
def drainAll : List OutboxEntry × OutboxStore :=
  (store.drained order, {})

end OutboxStore

end DeSentry
