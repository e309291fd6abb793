import DeSentry.Construction.Net.Rounds

/-!
# The ledger half of a round (`net/gossip.cpp`, `net/wire_protocol.cpp`)

`ExchangeLedger` sends the node's own tip.  The peer answers with entries of its ledger, and every
replicated access list among them goes to `ApplyRemoteAcl`.  `RunRoundWith` then exchanges
documents.

An answer has a size, since the transport gives up on a frame of more than four megabytes, and its
decoder gives up on a chunk index out of range.
-/

namespace DeSentry

open ByteCodec KeyedList ByteWriter

/-! ## The answer on the wire -/

variable (entry : LedgerEntrySummary)

/-- An entry, in `LedgerDeltaPayload::Encode`. -/
def LedgerEntrySummary.encode : Bytes :=
  i64 entry.entryId ++ u8 entry.operation.value ++
    bytes entry.keyHash ++ bytes entry.entryHash ++
    bytes entry.prevHash ++ bytes entry.originNodeId ++
    bytes entry.originSignature ++ i64 entry.hlcPhysicalMs ++
    u32 entry.hlcLogical ++ bytes entry.collection ++
    bytes entry.key ++ bytes entry.transitHolder ++
    u64 entry.transitSizeBytes ++ u32 entry.transitChunkIndex ++
    u32 entry.transitChunkTotal ++ bytes entry.aclJson

/-- The chunk fields as `LedgerDeltaPayload::Decode` leaves them. -/
def LedgerEntrySummary.withChunkTotal : LedgerEntrySummary :=
  if entry.transitChunkTotal = 0 then { entry with transitChunkTotal := 1 } else entry

variable (delta : LedgerDeltaPayload)

namespace LedgerDeltaPayload

/-- `kLedgerDeltaMagicV2`. -/
def kLedgerDeltaMagicV2 : UInt32 := 0x444C4432

/-- `LedgerDeltaPayload::Encode`. -/
def encode : Bytes :=
  u32 kLedgerDeltaMagicV2 ++ u8 (if delta.hashesOnly then 1 else 0) ++
    u32 (UInt32.ofNat delta.entries.length) ++
    (delta.entries.map LedgerEntrySummary.encode).flatten ++ bytes delta.tipSignature

/-- The answer as it arrives, if `RecvEncrypted` and `Decode` let it through. -/
def received : Option LedgerDeltaPayload :=
  if frameBytes delta.encode > kMaxMessageBytes then none
  else
    let entries := delta.entries.map LedgerEntrySummary.withChunkTotal
    if entries.any fun entry => decide (entry.transitChunkIndex ≥ entry.transitChunkTotal) then none
    else some { delta with entries }

end LedgerDeltaPayload

variable (c : Crypto) (env : LedgerEnv)

namespace NetworkManager

/-! ## `ExchangeLedger` -/

/-- What happens around an `ExchangeLedger`. -/
structure LedgerEnv where
  keys : KeyRing
  /-- `JsonValue::Parse`, on the text of an envelope. -/
  parse : Bytes → Except Bytes JsonValue
  /-- Around each `ApplyRemoteAcl`. -/
  acl : ℕ → AclEnv

/-- What `ExchangeLedger` has made of the entries so far. -/
structure Intake where
  engine : NodeEngine
  discovered : List Bytes := []
  /-- The entries given to `ApplyRemoteAcl`, with the answers. -/
  offers : List (LedgerEntrySummary × Except Status Unit) := []

/-- The collection of an entry is remembered if the peer may read it. -/
def Intake.discover (s : Intake) (who : Requestor) (entry : LedgerEntrySummary) : Intake :=
  if entry.collection ≠ [] ∧ entry.collection ≠ kTransitCollection ∧
      s.engine.canRead entry.collection who then
    { s with discovered := s.discovered ++ [entry.collection] }
  else s

/-- The loop body of `ExchangeLedger`.  A list that is refused does not end the loop. -/
def Intake.takeEntry (who : Requestor) (s : Intake) (entry : LedgerEntrySummary) : Intake :=
  let s := s.discover who entry
  if entry.operation ≠ .kAcl then s
  else if entry.aclJson = [] ∨ entry.collection = [] then s
  else
    let (answer, engine) := s.engine.applyRemoteAcl env.keys (env.acl s.offers.length)
      entry.originNodeId entry.collection (env.parse entry.aclJson) true
    { s with engine, offers := s.offers ++ [(entry, answer)] }

/-- The digest `ExchangeLedger` sends.  Its signature, which no responder reads, is left out. -/
def ledgerDigest (e : NodeEngine) : LedgerDigestPayload where
  tipEntryId := e.storage.wal.tip.entryId
  tipEntryHash := e.storage.wal.tip.entryHash
  fromEntryId := e.storage.wal.tip.entryId

/-- The delta the peer `y` answers `x` with, as it arrives. -/
def ledgerAnswer (x y : NetworkManager) : Option LedgerDeltaPayload :=
  match (y.handleLedgerDigest c none x.self (ledgerDigest x.engine)).message with
  | .ledgerDelta delta => delta.received
  | _ => none

/-- `ExchangeLedger` of the node `x` with the node `y`. -/
def exchangeLedger (x y : NetworkManager) : Intake :=
  match ledgerAnswer c x y with
  | none => { engine := x.engine }
  | some delta =>
    delta.entries.foldl (Intake.takeEntry env { nodeId := y.self }) { engine := x.engine }

/-! ## `RunRoundWith` -/

/-- What happens around a round. -/
structure RoundEnv where
  ledger : LedgerEnv
  documents : ℕ → ExchangeEnv

/-- `RunRoundWith` of the node `x` with the node `y`: the two nodes, and what `ExchangeLedger` of
`x` did. -/
def runRoundWith (env : RoundEnv) (x y : NetworkManager) :
    (NetworkManager × NetworkManager) × Intake :=
  let intake := exchangeLedger c env.ledger x y
  ((exchangeDocuments c env.documents (sortBy id intake.discovered).dedup
    { x with engine := intake.engine } y).1, intake)

/-- The two nodes after a round of `x` with `y`. -/
def afterRound (env : RoundEnv) (x y : NetworkManager) : NetworkManager × NetworkManager :=
  (x.runRoundWith c env y).1

end NetworkManager

end DeSentry
