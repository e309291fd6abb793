import DeSentry.Construction.Engine.AclReplication
import DeSentry.Construction.Engine.Digest
import DeSentry.Construction.Ledger.Checkpoint
import DeSentry.Construction.Net.WireProtocol
import DeSentry.Construction.Storage.WalRange

/-!
# The network manager (`net/network_manager.h`)

The handlers of the requests a peer makes, and the pushes a node makes on its own: the broadcast of
a local write and the relay of a broadcast it has received.  A message is recorded with the node it
is addressed to and the catalog at the time it was built.

A handler is one step: what other threads do happens before or after it.  The peers stand in the
order of `PeerTable::Ranked`.  Which owners of a key cannot be reached, and which chunks this node
keeps for them, is worked out from the placement ring, which is not part of this file; the result
is an argument.  The rate limiter, the counters and the handling of receipts by the sender are left
out.
-/

namespace DeSentry

open ByteCodec KeyedList

/-- `struct PeerInfo`, as far as a push reads it. -/
structure PeerInfo where
  nodeId : Bytes
  p2pPort : UInt16
  isSupervisor : Bool := false
  deriving DecidableEq, Repr

/-- `class MessageDedup`.  The set beside the queue holds the same ids. -/
structure MessageDedup where
  capacity : ℕ := 8192
  order : List Bytes := []
  deriving DecidableEq, Repr

/-- `NoteAndCheckNew`. -/
def MessageDedup.noteAndCheckNew (d : MessageDedup) (messageId : Bytes) : Bool × MessageDedup :=
  if messageId = [] then (true, d)
  else if messageId ∈ d.order then (false, d)
  else
    let order := d.order ++ [messageId]
    (true, { d with order := order.drop (order.length - d.capacity) })

/-- A message on its way. -/
structure Outbound where
  /-- The node it is addressed to. -/
  peer : Bytes
  message : WireMessage
  /-- The catalog when the message was built. -/
  catalog : Catalog
  deriving DecidableEq, Repr

/-- A document exchange of the gossip thread. -/
structure Exchange where
  peer : Bytes
  /-- The collection whose digest was sent. -/
  asked : Option Bytes := none
  remaining : List Bytes
  deriving DecidableEq, Repr

/-- `class NetworkManager`, with the exchange its gossip thread is in. -/
structure NetworkManager where
  engine : NodeEngine
  peers : List PeerInfo := []
  dedup : MessageDedup := {}
  exchange : Option Exchange := none

namespace NetworkManager

variable (net : NetworkManager)

/-- The node id. -/
abbrev self : Bytes := net.engine.nodeId

/-- A message built now. -/
def outbound (peer : Bytes) (message : WireMessage) : Outbound :=
  ⟨peer, message, net.engine.storage.catalog⟩

/-! ## Pushes -/

variable (queued : PeerInfo → Bool)

/-- The peers `FanOut` pushes to; `queued` when the pool has room for the push. -/
def fanOutPeers (excludeNodeId : Bytes) : List PeerInfo :=
  net.peers.filter fun peer => decide (peer.nodeId ≠ excludeNodeId) && !peer.isSupervisor &&
    decide (peer.p2pPort ≠ 0) && queued peer

/-- `FanOut`. -/
def fanOut (payload : OpBroadcastPayload) (excludeNodeId : Bytes) : List Outbound :=
  (net.fanOutPeers queued excludeNodeId).map fun peer =>
    net.outbound peer.nodeId (.opBroadcast payload)

/-- Chunks `HoldForUnreachableOwners` holds for an owner. -/
structure HoldTask where
  owner : Bytes
  chunks : List UInt32
  env : UInt32 → NodeEngine.ChunkEnv
  nowMs : Int64 := 0

variable (c : Crypto)

/-- The loop of `HoldForUnreachableOwners`; a hold that fails is skipped. -/
def holdForUnreachableOwners (tasks : List HoldTask) (collection key doc : Bytes) :
    NetworkManager :=
  if collection = kTransitCollection then net
  else
    { net with
      engine := tasks.foldl (fun e task => (e.holdForOfflineOwner c task.env task.nowMs task.owner
        collection key doc (some task.chunks) []).2) net.engine }

/-- What happens around a local write. -/
structure LocalWriteEnv where
  write : NodeEngine.WriteEnv
  messageId : Bytes := []
  queued : PeerInfo → Bool := fun _ => true
  holds : List HoldTask := []

variable (env : LocalWriteEnv)

/-- The answer of the reachability provider. -/
abbrev LocalWriteEnv.reachable : Bool := env.write.reachable

/-- The payload of a local write. -/
def writePayload (messageId collection key doc : Bytes) : OpBroadcastPayload :=
  { collection, docs := [⟨key, doc⟩], messageId, ttl := 1 }

/-- `BroadcastLocalWrite`. -/
def broadcastLocalWrite (collection key doc : Bytes) : NetworkManager × List Outbound :=
  let net := { net with dedup := (net.dedup.noteAndCheckNew env.messageId).2 }
  let sent := net.fanOut env.queued (writePayload env.messageId collection key doc) []
  (net.holdForUnreachableOwners c env.holds collection key doc, sent)

/-- `PutDocument` from the stamp on, with the hook of the network manager. -/
def writeAndBroadcast (collection key : Bytes) (newJson : JsonValue) (previous : Option CrdtValue) :
    Except Failure Unit × NetworkManager × List Outbound :=
  let (e, ts) := net.engine.now env.write.wall
  let (updated, tagCounter) := NodeEngine.updatedDocument previous newJson ts e.tagCounter
  let (answer, storage) := e.storage.putRaw c env.write.put collection key updated.encode
  let net := { net with engine := { e with tagCounter, storage } }
  match answer with
  | .error st => (.error (.status st), net, [])
  | .ok () =>
    -- An isolated node stages the write instead of broadcasting it.
    let (net, sent) := if env.reachable then
        net.broadcastLocalWrite c env collection key updated.encode
      else
        ({ net with engine := net.engine.stage c env.write collection key updated.encode ts }, [])
    let engine := net.engine.noteDigest c collection key updated.encode
    (.ok (), { net with engine := engine.persistClockIfDue env.write.clockCommitted }, sent)

/-- `PutDocument` on a node with a network. -/
def putDocument (collection key : Bytes) (newJson : JsonValue) (who : Requestor) :
    Except Failure Unit × NetworkManager × List Outbound :=
  if collection = kTransitCollection then
    (.error (.status ⟨.invalidArgument, text "'" ++ kTransitCollection ++
      text "' is engine-internal and cannot be written directly"⟩), net, [])
  else if !net.engine.canWrite collection who then
    (.error (.status (NodeEngine.mayNotWrite collection who)), net, [])
  else
    match net.engine.currentDocument collection key with
    | .error failure => (.error failure, net, [])
    | .ok previous => net.writeAndBroadcast c env collection key newJson previous

/-! ## Received broadcasts -/

/-- What happens around a merge. -/
structure MergeEnv where
  write : NodeEngine.WriteEnv
  appended : Except Status Unit := .ok ()

/-- `MergeRemote` on each document in turn.  A document that is refused is skipped; an exception
ends the loop, and the flag says that there was none. -/
def mergeDocs (c : Crypto) (collection : Bytes) (who : Requestor) :
    (ℕ → MergeEnv) → NodeEngine → List DocEntry → Bool × NodeEngine
  | _, e, [] => (true, e)
  | env, e, doc :: docs =>
    match e.mergeRemote c (env 0).write (env 0).appended collection doc.key doc.encodedDoc who with
    | (.error .thrown, e) => (false, e)
    | (_, e) => mergeDocs c collection who (fun n => env (n + 1)) e docs

/-- What happens around a received broadcast. -/
structure BroadcastEnv where
  merge : ℕ → MergeEnv
  queued : PeerInfo → Bool := fun _ => true

variable (broadcast : OpBroadcastPayload)

/-- The receipt for the first document of a broadcast. -/
def mergeReceipt (doc : DocEntry) : MergeReceipt :=
  let keyHash := ledgerKeyHash c broadcast.collection doc.key
  let appliedLsn := net.engine.storage.wal.tip.entryId
  { messageId := broadcast.messageId, keyHash, applierNode := net.self, appliedLsn
    signature := net.engine.sign (text "DSN-RECEIPT-v1" ++ broadcast.messageId ++ keyHash ++
      toText appliedLsn) }

/-- The answer of `HandleOpBroadcast` to a broadcast it has processed. -/
def broadcastReply : WireMessage :=
  match broadcast.docs with
  | [] => .pong none
  | doc :: _ => if broadcast.ttl = 1 then .pong (some (net.mergeReceipt c broadcast doc))
    else .pong none

/-- The relay of `HandleOpBroadcast`.  The clamped TTL is overwritten in the source. -/
def relay (peerNodeId : Bytes) (broadcast : OpBroadcastPayload) : List Outbound :=
  if broadcast.ttl > 0 then
    net.fanOut queued { broadcast with ttl := broadcast.ttl - 1 } peerNodeId
  else []

/-- What `HandleRequest` answers when a handler has thrown. -/
def malformed : WireMessage := .error (text "malformed payload")

/-- `HandleOpBroadcast`. -/
def handleOpBroadcast (env : BroadcastEnv) (peerNodeId : Bytes) (broadcast : OpBroadcastPayload) :
    NetworkManager × List Outbound :=
  match net.dedup.noteAndCheckNew broadcast.messageId with
  | (false, dedup) =>
    let net := { net with dedup }
    (net, [net.outbound peerNodeId (.pong none)])
  | (true, dedup) =>
    let (done, engine) :=
      mergeDocs c broadcast.collection { nodeId := peerNodeId } env.merge net.engine broadcast.docs
    let net := { net with dedup, engine }
    if !done then (net, [net.outbound peerNodeId malformed])
    else
      (net, net.relay env.queued peerNodeId broadcast ++
        [net.outbound peerNodeId (net.broadcastReply c broadcast)])

/-! ## Digests -/

/-- The `Fingerprint` of `HandleDigest`. -/
structure Fingerprint where
  topTs : HLCTimestamp
  contentHash : Bytes
  deriving DecidableEq, Repr

/-- The `differs` of `HandleDigest`. -/
def Fingerprint.differs (a b : Fingerprint) : Bool :=
  decide (a.topTs > b.topTs) ||
    (!decide (b.topTs > a.topTs) && decide (a.contentHash ≠ b.contentHash))

/-- The test of both loops of `HandleDigest`: the other side has no copy, or another one. -/
def missing (other : List (Bytes × Fingerprint)) (entry : Bytes × Fingerprint) : Bool :=
  match AssocMap.get other entry.1 with
  | none => true
  | some copy => entry.2.differs copy

/-- The `kMaxDeltaBytes` of `HandleDigest`. -/
def kMaxDeltaBytes : ℕ := 1024 * 1024

/-- The answer being built, and its size so far. -/
structure DeltaState where
  response : DeltaResponsePayload
  deltaBytes : ℕ

/-- The entry does not fit any more. -/
def DeltaState.full (s : DeltaState) (entryBytes : ℕ) : Bool :=
  (decide (s.response.pushed ≠ []) || decide (s.response.wantedKeys ≠ [])) &&
    decide (s.deltaBytes + entryBytes > kMaxDeltaBytes)

/-- The first loop of `HandleDigest`. -/
def pushLoop (e : NodeEngine) (collection : Bytes) (remote : List (Bytes × Fingerprint)) :
    DeltaState → List (Bytes × Fingerprint) → DeltaState
  | s, [] => s
  | s, entry :: rest =>
    if !missing remote entry then pushLoop e collection remote s rest
    else
      match e.getRawEncoded collection entry.1 with
      | .error _ => pushLoop e collection remote s rest
      | .ok doc =>
        let entryBytes := entry.1.length + doc.length + 8
        if s.full entryBytes then s
        else
          pushLoop e collection remote
            ⟨{ s.response with pushed := s.response.pushed ++ [⟨entry.1, doc⟩] },
              s.deltaBytes + entryBytes⟩ rest

/-- The second loop of `HandleDigest`. -/
def wantLoop (stored : List (Bytes × Fingerprint)) :
    DeltaState → List (Bytes × Fingerprint) → DeltaState
  | s, [] => s
  | s, entry :: rest =>
    if !missing stored entry then wantLoop stored s rest
    else
      let entryBytes := entry.1.length + 4
      if s.full entryBytes then s
      else
        wantLoop stored
          ⟨{ s.response with wantedKeys := s.response.wantedKeys ++ [entry.1] },
            s.deltaBytes + entryBytes⟩ rest

/-- The map `remote` of `HandleDigest`: the last entry of a key counts. -/
def remoteFingerprints (entries : List DigestEntry) : List (Bytes × Fingerprint) :=
  entries.foldl (fun m e =>
    AssocMap.set m e.key ⟨HLCTimestamp.decode e.topTsEncoded, e.contentHash⟩) []

variable (e : NodeEngine)

/-- The map `local` of `HandleDigest`. -/
def localFingerprints (collection : Bytes) : List (Bytes × Fingerprint) :=
  (e.localDigest c collection).1.foldl (fun m d => AssocMap.set m d.key ⟨d.topTs, d.contentHash⟩) []

variable (order : MapOrder (Bytes × Fingerprint))

/-- The payload `HandleDigest` answers with. -/
def digestResponse (e : NodeEngine) (peerNodeId : Bytes) (digest : DigestPayload) :
    DeltaResponsePayload :=
  if !e.canRead digest.collection { nodeId := peerNodeId } then { collection := digest.collection }
  else
    let remote := remoteFingerprints digest.entries
    let stored := localFingerprints c e digest.collection
    let pushed := pushLoop e digest.collection remote
      ⟨{ collection := digest.collection }, digest.collection.length + 32⟩ (order.1 stored)
    (wantLoop stored pushed (order.1 remote)).response

/-- The state after `HandleDigest`: `LocalDigest` may have filled the digest cache. -/
def digested (peerNodeId : Bytes) (digest : DigestPayload) : NetworkManager :=
  if !net.engine.canRead digest.collection { nodeId := peerNodeId } then net
  else { net with engine := (net.engine.localDigest c digest.collection).2 }

/-- The answer of `HandleDigest`. -/
def handleDigest (peerNodeId : Bytes) (digest : DigestPayload) : Outbound :=
  net.outbound peerNodeId (.deltaResponse (digestResponse c order net.engine peerNodeId digest))

/-! ## Held documents -/

/-- The entry `HandleTransitQuery` makes of an envelope. -/
def transitEntry (envelope : TransitEnvelope) : TransitEntry where
  collection := envelope.collection
  key := envelope.key
  keyHash := envelope.keyHash
  encodedDoc := envelope.encodedDoc
  intentLsn := envelope.intentLsn
  holderNode := envelope.holderNode
  docSizeBytes := envelope.docSizeBytes
  chunkIndex := envelope.chunkIndex
  chunkTotal := envelope.chunkTotal
  contentHash := envelope.contentHash
  holderSig := envelope.holderSig

/-- The `kMaxEntriesPerResponse` of `HandleTransitQuery`. -/
def kMaxEntriesPerResponse : ℕ := 256

variable (nowMs : Int64)

/-- The envelopes from the offset of a query on, in the order of their intents. -/
def pendingFrom (peerNodeId : Bytes) (offset : UInt64) : List TransitEnvelope :=
  (sortBy (·.intentLsn.toInt) (e.transit.pendingFor nowMs peerNodeId)).drop offset.toNat

/-- The payload `HandleTransitQuery` answers with. -/
def transitResponse (peerNodeId : Bytes) (offset : UInt64) : TransitResponsePayload :=
  let pending := pendingFrom e nowMs peerNodeId offset
  let entries := (pending.take kMaxEntriesPerResponse).map transitEntry
  { entries
    truncated := decide (pending.length > kMaxEntriesPerResponse)
    nextOffset := offset + UInt64.ofNat entries.length }

/-- `HandleTransitQuery`. -/
def handleTransitQuery (peerNodeId : Bytes) (offset : UInt64) : Outbound :=
  net.outbound peerNodeId (.transitResponse (transitResponse net.engine nowMs peerNodeId offset))

/-! ## Ledger entries -/

/-- The `kMaxDeltaEntries` of `HandleLedgerDigest`. -/
def kMaxDeltaEntries : ℕ := 1024

/-- What a peer is told about a record: the key and the collection if it may read the collection,
and a replicated access list in any case. -/
def ledgerEntrySummary (who : Requestor) (r : WalRecord) : LedgerEntrySummary :=
  let readable := e.canRead r.collection who
  { entryId := r.lsn
    operation := r.type
    keyHash := r.keyHash
    entryHash := r.entryHash
    prevHash := r.prevHash
    originNodeId := r.originNodeId
    originSignature := r.originSignature
    hlcPhysicalMs := r.hlc.physicalMs.toInt64
    hlcLogical := r.hlc.logical
    collection := if readable ∨ r.type = .kAcl then r.collection else []
    key := if readable then r.key else []
    transitHolder := r.transitHolder
    transitSizeBytes := r.transitSizeBytes
    transitChunkIndex := r.transitChunkIndex
    transitChunkTotal := r.transitChunkTotal
    aclJson := if r.type = .kAcl then r.documentBytes else [] }

/-- `LedgerTipMessage`. -/
def ledgerTipMessage (entryId : Int64) (entryHash : Bytes) : Bytes :=
  text "DSN-TIP-v1:" ++ toText entryId ++ text ":" ++ entryHash

/-- The payload of `HandleLedgerDigest` for the records it has read. -/
def ledgerDelta (who : Requestor) (records : List WalRecord) : LedgerDeltaPayload :=
  let sent := records.take kMaxDeltaEntries
  { entries := sent.map (ledgerEntrySummary e who)
    hashesOnly := sent.any fun r => !e.canRead r.collection who
    tipSignature := (sent.getLast?.map fun r =>
      e.sign (ledgerTipMessage r.lsn r.entryHash)).getD [] }

/-- The records `HandleLedgerDigest` reads for a digest: those past the peer's tip, all of them for
a peer of the same height on another chain, and none for one that is level or ahead. -/
def ledgerEntriesFor (start : Option ℕ) (digest : LedgerDigestPayload) :
    Except Failure (List WalRecord) :=
  let tip := e.storage.wal.tip
  let sameHeightDifferentChain :=
    decide (digest.tipEntryId = tip.entryId) && decide (digest.tipEntryHash ≠ tip.entryHash)
  if digest.tipEntryId > tip.entryId then .ok []
  else if digest.tipEntryId = tip.entryId ∧ !sameHeightDifferentChain then .ok []
  else
    e.storage.wal.readRange c e.storage.disk start
      (if sameHeightDifferentChain then 0 else digest.tipEntryId + 1) tip.entryId

/-- `HandleLedgerDigest`; `start` is the offset the index of the ledger has for the range. -/
def handleLedgerDigest (start : Option ℕ) (peerNodeId : Bytes) (digest : LedgerDigestPayload) :
    Outbound :=
  match ledgerEntriesFor c net.engine start digest with
  | .error (.status st) => net.outbound peerNodeId (.error st.message)
  | .error .thrown => net.outbound peerNodeId malformed
  | .ok records =>
    net.outbound peerNodeId (.ledgerDelta (ledgerDelta net.engine { nodeId := peerNodeId } records))

/-! ## Replica tips -/

/-- The segment check of `CollectReplicaTips`: every entry names the hash of the one before it. -/
def linked : Bytes → List LedgerEntrySummary → Bool
  | _, [] => true
  | expectedPrev, entry :: entries =>
    if expectedPrev ≠ [] ∧ entry.prevHash ≠ expectedPrev then false
    else linked entry.entryHash entries

variable (verify : Bytes → Int64 → Bytes → Bytes → Bool)

/-- The tip `CollectReplicaTips` makes of an answer; `verify` is `VerifyPeerTip`. -/
def replicaTip (peerNodeId : Bytes) (delta : LedgerDeltaPayload) : Option ReplicaTip :=
  delta.entries.getLast?.map fun back =>
    { nodeId := peerNodeId
      entryId := back.entryId
      entryHash := back.entryHash
      selfVerified := linked [] delta.entries
      signatureValid := decide (delta.tipSignature ≠ []) &&
        verify peerNodeId back.entryId back.entryHash delta.tipSignature
      signature := delta.tipSignature }

/-- `CollectReplicaTips`, with what the peers answer. -/
def collectReplicaTips (answer : PeerInfo → Option LedgerDeltaPayload) : List ReplicaTip :=
  net.peers.filterMap fun peer =>
    if peer.p2pPort = 0 then none else (answer peer).bind (replicaTip verify peer.nodeId)

end NetworkManager

end DeSentry
