import DeSentry.Construction.Net.NetworkManager

/-!
# Striped holds and their claim (`net/placement.cpp`, `net/network_manager.cpp`)

The document of an absent owner is cut into chunks.  `SelectTransitHolders` ranks the nodes by a
hash and deals the chunks out: the holders of a chunk are the first of the ranking, rotated by the
index of the chunk.  A node that writes holds the chunks it is designated for.

When the owner is back, `ClaimPendingTransit` asks its peers.  `ApplyHolderEntries` takes one answer
at a time: it checks every entry, puts the chunks of each document together, and merges the
documents that are complete.

The pass also records what it gave to `ApplyClaimedTransit`, and the intents it read in the node's
own ledger.
-/

namespace DeSentry

open ByteCodec KeyedList ByteWriter

/-! ## Holders -/

variable (c : Crypto)

/-- `ConsistentHashRing::HashToRing`. -/
def hashToRing (value : Bytes) : UInt64 :=
  ((c.sha256 value).take 8).foldl (fun out b => (out <<< 8) ||| b.toUInt64) 0

/-- The place of a candidate in the ranking: a higher hash comes first, then a smaller id. -/
def holderPlace (owner docKeyHash candidate : Bytes) : ℕ ×ₗ Bytes :=
  toLex (2 ^ 64 - (hashToRing c (owner ++ 0 :: (docKeyHash ++ 0 :: candidate))).toNat, candidate)

/-- The ranking of `SelectTransitHolders`. -/
def rankedHolders (owner docKeyHash : Bytes) (candidates : List Bytes) : List Bytes :=
  sortBy (holderPlace c owner docKeyHash) (candidates.filter fun candidate => decide (candidate ≠ []))

/-- `SelectTransitHolders`. -/
def selectTransitHolders (owner docKeyHash : Bytes) (candidates : List Bytes)
    (maxHolders chunkIndex : UInt32) : List Bytes :=
  if candidates = [] ∨ maxHolders = 0 then []
  else
    let ranked := rankedHolders c owner docKeyHash candidates
    (ranked.rotate (chunkIndex.toNat % ranked.length)).take (min maxHolders.toNat ranked.length)

/-- The `max_holders` in force. -/
def transitMaxHolders (configured : UInt32) : UInt32 := if configured > 0 then configured else 3

/-- The `my_chunks` of `HoldForUnreachableOwners`. -/
def assignedChunks (self owner docKeyHash : Bytes) (candidates : List Bytes)
    (maxHolders chunkTotal : UInt32) : List UInt32 :=
  ((List.range chunkTotal.toNat).map UInt32.ofNat).filter fun i =>
    decide (self ∈ selectTransitHolders c owner docKeyHash candidates maxHolders i)

/-! ## The answer on the wire -/

variable (entry : TransitEntry)

/-- An entry, in `TransitResponsePayload::Encode`. -/
def TransitEntry.encode : Bytes :=
  bytes entry.collection ++ bytes entry.key ++
    bytes entry.keyHash ++ bytes entry.encodedDoc ++
    i64 entry.intentLsn ++ bytes entry.holderNode ++
    u64 entry.docSizeBytes ++ u32 entry.chunkIndex ++
    u32 entry.chunkTotal ++ bytes entry.contentHash ++
    bytes entry.holderSig

/-- The chunk fields as `TransitResponsePayload::Decode` leaves them. -/
def TransitEntry.withChunkTotal : TransitEntry :=
  if entry.chunkTotal = 0 then { entry with chunkTotal := 1 } else entry

variable (response : TransitResponsePayload)

namespace TransitResponsePayload

/-- `kTransitResponseMagicV2`. -/
def kTransitResponseMagicV2 : UInt32 := 0x44545232

/-- `TransitResponsePayload::Encode`. -/
def encode : Bytes :=
  u32 kTransitResponseMagicV2 ++
    u32 (UInt32.ofNat response.entries.length) ++
    (response.entries.map TransitEntry.encode).flatten ++
    u8 (if response.truncated then 1 else 0) ++ u64 response.nextOffset

/-- The answer as it arrives, if `RecvEncrypted` and `Decode` let it through. -/
def received : Option TransitResponsePayload :=
  if frameBytes response.encode > kMaxMessageBytes then none
  else
    let entries := response.entries.map TransitEntry.withChunkTotal
    if entries.any fun entry => decide (entry.chunkIndex ≥ entry.chunkTotal) then none
    else some { response with entries }

end TransitResponsePayload

/-! ## Putting chunks together -/

/-- The chunks by index, as the loop over `ordered` enters them; `none` if a chunk does not agree
with the first one or is there twice. -/
def placeChunks (first : TransitEntry) : List (Option TransitEntry) → List TransitEntry →
    Option (List (Option TransitEntry))
  | ordered, [] => some ordered
  | ordered, entry :: rest =>
    if entry.chunkTotal ≠ first.chunkTotal ∨ entry.docSizeBytes ≠ first.docSizeBytes ∨
        entry.chunkIndex ≥ first.chunkTotal ∨ (ordered[entry.chunkIndex.toNat]?).join ≠ none then
      none
    else placeChunks first (ordered.set entry.chunkIndex.toNat (some entry)) rest

/-- The whole document, out of the chunks of one answer. -/
def reassemble (first : TransitEntry) (chunks : List TransitEntry) : Option Bytes :=
  if first.chunkTotal = 1 then if chunks.length ≠ 1 then none else some first.encodedDoc
  else if first.chunkTotal > 4096 ∨ first.docSizeBytes > 64 * 1024 * 1024 then none
  else
    match placeChunks first (List.replicate first.chunkTotal.toNat none) chunks with
    | none => none
    | some ordered =>
      if ordered.any Option.isNone then none
      else
        let parts := (ordered.filterMap id).map (·.encodedDoc)
        if UInt64.ofNat (parts.map List.length).sum ≠ first.docSizeBytes then none
        else some parts.flatten

variable (ctx : ClaimContext)

namespace NetworkManager

/-! ## `ApplyHolderEntries` -/

/-- `struct PeerInfo`, as far as a claim reads it. -/
structure MeshPeer where
  nodeId : Bytes
  p2pPort : UInt16
  isSupervisor : Bool := false
  /-- The state is `kReclaimed`. -/
  reclaimed : Bool := false
  /-- The suspicion is `kDead`. -/
  dead : Bool := false
  handshakeProven : Bool := true
  pubkey : Bytes
  deriving DecidableEq, Repr

/-- The peers that can be holders. -/
def holderCandidates (self : Bytes) (peers : List MeshPeer) : List Bytes :=
  (peers.filter fun peer => decide (peer.nodeId ≠ self) && decide (peer.p2pPort ≠ 0) &&
    decide (peer.nodeId.take 10 ≠ text "bootstrap#") && !peer.isSupervisor && !peer.reclaimed &&
    !peer.dead).map (·.nodeId)

/-- The `active_candidates` of `HoldForUnreachableOwners` for an owner. -/
def activeCandidates (self owner : Bytes) (peers : List MeshPeer) : List Bytes :=
  (self :: holderCandidates self peers).filter fun candidate => decide (candidate ≠ owner)

/-- `struct TransitIntent`, as far as a claim reads it. -/
structure TransitIntent where
  keyHash : Bytes
  holderNode : Bytes
  chunkTotal : UInt32
  deriving DecidableEq, Repr

/-- `TransitIntentsForSelf`. -/
def transitIntentsForSelf (e : NodeEngine) : List TransitIntent :=
  match e.storage.wal.readRange c e.storage.disk none kInvalidLsn e.storage.wal.tip.entryId with
  | .error _ => []
  | .ok records =>
    (records.filter fun r => decide (r.type = .kTransitIntent) &&
      decide (r.collection = e.nodeId)).map fun r =>
        ⟨r.keyHash, r.transitHolder, r.transitChunkTotal⟩

/-- What happens around an `ApplyClaimedTransit`. -/
structure ApplyEnv where
  write : NodeEngine.WriteEnv
  claim : NodeEngine.ClaimEnv
  appended : Except Status Unit := .ok ()

/-- What a claim pass works with. -/
structure ClaimContext where
  /-- `NodeIdentity::Verify`. -/
  verify : Bytes → Bytes → Bytes → Bool
  /-- The peer table, as `Ranked` lists it. -/
  peers : List MeshPeer
  /-- `transit_max_holders`. -/
  maxHolders : UInt32 := 0
  /-- Around each `ApplyClaimedTransit`. -/
  apply : ℕ → ApplyEnv

/-- A claim pass so far: the owner, the `ClaimReport`, and what was done. -/
structure ClaimPass where
  engine : NodeEngine
  documentsClaimed : ℕ := 0
  peersAsked : ℕ := 0
  failures : ℕ := 0
  /-- What was given to `ApplyClaimedTransit`: collection, key and document. -/
  applied : List (Bytes × Bytes × Bytes) := []
  /-- The claims sent to holders. -/
  sent : List (Bytes × List Bytes) := []
  /-- The intents `TransitIntentsForSelf` found. -/
  intents : List TransitIntent := []

/-- `VerifyTransitEntry`. -/
def verifyTransitEntry (verify : Bytes → Bytes → Bytes → Bool) (entry : TransitEntry)
    (holderPubkey : Bytes) : Bool :=
  let docKeyHash := ledgerKeyHash c entry.collection entry.key
  if docKeyHash ≠ entry.keyHash ∧ transitChunkKeyHash c docKeyHash entry.chunkIndex ≠ entry.keyHash
    then false
  else if entry.contentHash = [] ∨ entry.holderSig = [] then false
  else if c.sha256 entry.encodedDoc ≠ entry.contentHash then false
  else if holderPubkey = [] then false
  else verify holderPubkey (transitAttestMessage entry.keyHash entry.contentHash entry.chunkIndex
    entry.chunkTotal) entry.holderSig

/-- The checks of `ApplyHolderEntries` on an entry: the attestation, that the holder is designated
for the chunk, and an intent of the same hash, the last one if there are several. -/
def acceptsEntry (self holder holderPubkey : Bytes) (intents : List TransitIntent)
    (entry : TransitEntry) : Bool :=
  verifyTransitEntry c ctx.verify entry holderPubkey &&
    decide (holder ∈ selectTransitHolders c self (ledgerKeyHash c entry.collection entry.key)
      (holderCandidates self ctx.peers) (transitMaxHolders ctx.maxHolders) entry.chunkIndex) &&
    match intents.reverse.find? fun intent => decide (intent.keyHash = entry.keyHash) with
    | none => true
    | some intent =>
      decide (intent.holderNode = holder) && decide (intent.chunkTotal = entry.chunkTotal)

/-- The key of an entry in `by_doc`. -/
def docKey : Bytes := entry.collection ++ 0 :: entry.key

/-- The map `by_doc`: the entries of each document, in the order of the keys. -/
def byDoc (entries : List TransitEntry) : List (List TransitEntry) :=
  (sortBy id (entries.map docKey)).dedup.map fun key =>
    entries.filter fun entry => decide (docKey entry = key)

/-- The loop over `by_doc`, with the key hashes of the claim.  `ApplyClaimedTransit` can throw, and
nobody catches. -/
def applyDocs (c : Crypto) (ctx : ClaimContext) : ClaimPass → List Bytes →
    List (List TransitEntry) → Except Failure (List Bytes) × ClaimPass
  | s, claim, [] => (.ok claim, s)
  | s, claim, [] :: docs => applyDocs c ctx s claim docs
  | s, claim, (first :: rest) :: docs =>
    match reassemble first (first :: rest) with
    | none => applyDocs c ctx { s with failures := s.failures + 1 } claim docs
    | some bytes =>
      let env := ctx.apply s.applied.length
      let (answer, engine) := s.engine.applyClaimedTransit c env.write env.claim env.appended
        first.collection first.key bytes
      let s := { s with engine, applied := s.applied ++ [(first.collection, first.key, bytes)] }
      match answer with
      | .error .thrown => (.error .thrown, s)
      | .error (.status _) => applyDocs c ctx { s with failures := s.failures + 1 } claim docs
      | .ok () =>
        applyDocs c ctx { s with documentsClaimed := s.documentsClaimed + 1 }
          (claim ++ (first :: rest).map (·.keyHash)) docs

/-- `ApplyHolderEntries`, with the key hashes of the claim. -/
def applyHolderEntries (s : ClaimPass) (holder : Bytes) (entries : List TransitEntry) :
    Except Failure (List Bytes) × ClaimPass :=
  let holderPubkey := match ctx.peers.find? fun peer => decide (peer.nodeId = holder) with
    | none => []
    | some peer => if peer.handshakeProven then peer.pubkey else []
  if holderPubkey = [] then (.ok [], { s with failures := s.failures + entries.length })
  else
    let intents := transitIntentsForSelf c s.engine
    let accepted := entries.filter
      (acceptsEntry c ctx s.engine.nodeId holder holderPubkey intents)
    applyDocs c ctx { s with
      failures := s.failures + (entries.length - accepted.length)
      intents := s.intents ++ intents } [] (byDoc accepted)

/-! ## `ClaimPendingTransit` -/

/-- What a peer answers to a query with an offset, as it arrives. -/
abbrev TransitAnswer := MeshPeer → UInt64 → Option TransitResponsePayload

/-- The loop of phase 1 over the pages of a holder; `fuel` bounds the pages. -/
def claimPages (c : Crypto) (ctx : ClaimContext) (answer : TransitAnswer) (peer : MeshPeer) :
    ℕ → UInt64 → ClaimPass → Except Failure Unit × ClaimPass
  | 0, _, s => (.ok (), s)
  | fuel + 1, offset, s =>
    let s := { s with peersAsked := s.peersAsked + 1 }
    match answer peer offset with
    | none => (.ok (), { s with failures := s.failures + 1 })
    | some response =>
      if response.entries = [] then (.ok (), s)
      else
        match applyHolderEntries c ctx s peer.nodeId response.entries with
        | (.error failure, s) => (.error failure, s)
        | (.ok claim, s') =>
          let s' := if s'.documentsClaimed > s.documentsClaimed then
              { s' with sent := s'.sent ++ [(peer.nodeId, claim)] }
            else s'
          if !response.truncated then (.ok (), s')
          else claimPages c ctx answer peer fuel response.nextOffset s'

/-- Phase 1: the holders that the node's own ledger names. -/
def claimTargeted (c : Crypto) (ctx : ClaimContext) (answer : TransitAnswer) (fuel : ℕ) :
    ClaimPass → List Bytes → Except Failure Unit × ClaimPass
  | s, [] => (.ok (), s)
  | s, holder :: holders =>
    if holder = s.engine.nodeId then claimTargeted c ctx answer fuel s holders
    else
      match ctx.peers.find? fun peer => decide (peer.nodeId = holder) with
      | none => claimTargeted c ctx answer fuel s holders
      | some peer =>
        if peer.p2pPort = 0 then claimTargeted c ctx answer fuel s holders
        else
          match claimPages c ctx answer peer fuel 0 s with
          | (.error failure, s) => (.error failure, s)
          | (.ok (), s) => claimTargeted c ctx answer fuel s holders

/-- Phase 2: every other peer, one page each. -/
def claimSweep (c : Crypto) (ctx : ClaimContext) (answer : TransitAnswer) (queried : List Bytes) :
    ClaimPass → List MeshPeer → Except Failure Unit × ClaimPass
  | s, [] => (.ok (), s)
  | s, peer :: peers =>
    if peer.p2pPort = 0 ∨ peer.nodeId = s.engine.nodeId ∨ peer.nodeId ∈ queried then
      claimSweep c ctx answer queried s peers
    else
      let s := { s with peersAsked := s.peersAsked + 1 }
      match answer peer 0 with
      | none => claimSweep c ctx answer queried { s with failures := s.failures + 1 } peers
      | some response =>
        if response.entries = [] then claimSweep c ctx answer queried s peers
        else
          match applyHolderEntries c ctx s peer.nodeId response.entries with
          | (.error failure, s) => (.error failure, s)
          | (.ok claim, s) =>
            let s := if claim ≠ [] then { s with sent := s.sent ++ [(peer.nodeId, claim)] } else s
            claimSweep c ctx answer queried s peers

/-- `ClaimPendingTransit` of the owner `e`. -/
def claimPendingTransit (answer : TransitAnswer) (fuel : ℕ) (e : NodeEngine) :
    Except Failure Unit × ClaimPass :=
  let intents := transitIntentsForSelf c e
  let holders := intents.map (·.holderNode)
  let named := (sortBy id (holders.filter fun holder => decide (holder ≠ []))).dedup
  match claimTargeted c ctx answer fuel { engine := e, intents } named with
  | (.error failure, s) => (.error failure, s)
  | (.ok (), s) => claimSweep c ctx answer holders s ctx.peers

end NetworkManager

end DeSentry
