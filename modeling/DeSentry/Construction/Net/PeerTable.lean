import DeSentry.Construction.Ledger.OutboxStore

/-!
# The peer table (`net/peer.h`)

What a node knows about other nodes comes from several sources.  A handshake proves that the peer
has the key its node id is derived from.  Beacons over UDP and mDNS are datagrams anyone can send.
`Upsert` merges what a source says into the entry of the peer, with rules that depend on the source.

`HandleRequest` and the probes read an entry, change it and write it back in two calls of the table,
so that other threads may come between.  The copies that threads have read are part of the state.

The fields of the fitness that only the ranking reads are left out.
-/

namespace DeSentry

open ByteCodec

/-! ## Node ids -/

/-- `NodeIdentity::DeriveNodeId`. -/
def deriveNodeId (c : Crypto) (publicKey : Bytes) : Bytes :=
  (hexEncode (c.sha256 publicKey)).take 32

/-! ## Entries -/

/-- `enum class NodeLifecycleState`. -/
inductive NodeLifecycleState where
  | kDiscovered
  | kAllocated
  | kProvisioned
  | kRunning
  | kDegraded
  | kReclaimed
  deriving DecidableEq, Repr

/-- `ValidNodeTransition`. -/
def validNodeTransition (source target : NodeLifecycleState) : Bool :=
  if source = target then true
  else
    match source, target with
    | .kDiscovered, .kAllocated => true
    | .kAllocated, .kProvisioned => true
    | .kProvisioned, .kRunning => true
    | .kProvisioned, .kDegraded => true
    | .kRunning, .kDegraded => true
    | .kDegraded, .kRunning => true
    | .kReclaimed, _ => false
    | _, .kReclaimed => true
    | _, _ => false

/-- `enum class PeerSuspicion`. -/
inductive PeerSuspicion where
  | kHealthy
  | kSuspect
  | kDead
  deriving DecidableEq, Repr

/-- `enum class PeerSource`. -/
inductive PeerSource where
  | kBootstrap
  | kDiscovery
  | kHandshake
  | kProbe
  | kMdns
  deriving DecidableEq, Repr

/-- The built-in `<` of two doubles, false on a NaN. -/
def Double.lt (a b : Double) : Bool :=
  let signed (d : Double) : ℤ := if d.bits.toNat < 2 ^ 63 then d.magnitude else -d.magnitude
  !a.isNaN && !b.isNaN && decide (signed a < signed b)

/-- `struct PeerInfo`. -/
structure PeerEntry where
  nodeId : Bytes := []
  ed25519Pubkey : Bytes := []
  host : Bytes := []
  p2pPort : UInt16 := 0
  apiPort : UInt16 := 0
  hostname : Bytes := []
  lastSeenMs : Int64 := 0
  isSupervisor : Bool := false
  handshakeProven : Bool := false
  state : NodeLifecycleState := .kDiscovered
  /-- `fitness.success_rate` and `fitness.probes`. -/
  successRate : Double := ⟨0x3FF0000000000000⟩
  probes : UInt64 := 0
  deriving DecidableEq, Repr

namespace PeerEntry

variable (e : PeerEntry)

/-- What the silence of a peer says. -/
def silence (nowMs thresholdMs : Int64) : PeerSuspicion :=
  let threshold := if thresholdMs > 0 then thresholdMs else 5000
  let silentMs := nowMs - e.lastSeenMs
  if silentMs > 3 * threshold then .kDead
  else if silentMs > threshold then .kSuspect
  else .kHealthy

/-- `Suspicion`. -/
def suspicion (nowMs thresholdMs : Int64) : PeerSuspicion :=
  if e.lastSeenMs = 0 then .kSuspect
  else
    let tier := e.silence nowMs thresholdMs
    let tier := if e.probes ≥ 4 ∧ e.successRate.lt ⟨0x3FE0000000000000⟩ ∧ tier = .kHealthy then
      .kSuspect else tier
    if e.probes ≥ 8 ∧ e.successRate.lt ⟨0x3FC3333333333333⟩ then .kDead else tier

/-- What `Upsert` makes of an entry that a handshake has proven, for a beacon. -/
def fillMissing (info : PeerEntry) : PeerEntry :=
  { e with
    lastSeenMs := info.lastSeenMs
    host := if e.host = [] ∧ info.host ≠ [] then info.host else e.host
    p2pPort := if e.p2pPort = 0 ∧ info.p2pPort ≠ 0 then info.p2pPort else e.p2pPort
    apiPort := if e.apiPort = 0 ∧ info.apiPort ≠ 0 then info.apiPort else e.apiPort
    hostname := if e.hostname = [] ∧ info.hostname ≠ [] then info.hostname else e.hostname }

/-- What `Upsert` makes of an entry otherwise. -/
def overwrite (info : PeerEntry) (source : PeerSource) : PeerEntry :=
  { e with
    host := info.host
    p2pPort := info.p2pPort
    lastSeenMs := info.lastSeenMs
    ed25519Pubkey := if info.ed25519Pubkey ≠ [] then info.ed25519Pubkey else e.ed25519Pubkey
    apiPort := if info.apiPort ≠ 0 then info.apiPort else e.apiPort
    hostname := if info.hostname ≠ [] then info.hostname else e.hostname
    isSupervisor := if info.isSupervisor ∧ source ≠ .kDiscovery then true else e.isSupervisor
    handshakeProven := if source = .kHandshake then true else e.handshakeProven
    state := if info.state ≠ .kDiscovered ∧ validNodeTransition e.state info.state then info.state
      else e.state }

/-- The entry that `Upsert` makes for a peer it does not know. -/
def fresh (source : PeerSource) : PeerEntry :=
  if source = .kDiscovery then { e with handshakeProven := false, isSupervisor := false } else e

end PeerEntry

/-! ## The table -/

/-- `class PeerTable`. -/
structure PeerTable where
  peers : List (Bytes × PeerEntry) := []
  deriving DecidableEq, Repr

namespace PeerTable

/-- `kMaxPeers`. -/
def kMaxPeers : ℕ := 4096

variable (t : PeerTable) (nodeId : Bytes)

/-- `Get`. -/
def get : Option PeerEntry := AssocMap.get t.peers nodeId

/-- The map with an entry. -/
def insert (e : PeerEntry) : PeerTable := ⟨AssocMap.set t.peers nodeId e⟩

/-- The map without an entry. -/
def erase : PeerTable :=
  ⟨t.peers.filter fun e => decide (e.1 ≠ nodeId)⟩

variable (order : MapOrder (Bytes × PeerEntry)) (nowMs : Int64)

/-- The entry that makes room for a new one, in the order of the walk. -/
def victim : Option Bytes :=
  ((order.1 t.peers).find? fun e => e.2.suspicion nowMs 5000 = .kDead).map Prod.fst

/-- `Upsert`. -/
def upsert (info : PeerEntry) (source : PeerSource) : PeerTable :=
  match t.get info.nodeId with
  | none =>
    if t.peers.length ≥ kMaxPeers then
      match t.victim order info.lastSeenMs with
      | none => t
      | some nodeId => (t.erase nodeId).insert info.nodeId (info.fresh source)
    else t.insert info.nodeId (info.fresh source)
  | some existing =>
    if existing.handshakeProven ∧ source = .kDiscovery then
      t.insert info.nodeId (existing.fillMissing info)
    else t.insert info.nodeId (existing.overwrite info source)

/-- `MarkHandshakeProven`. -/
def markHandshakeProven (nodeId pubkey host : Bytes) (p2pPort : UInt16) : PeerTable :=
  match t.get nodeId with
  | none =>
    if t.peers.length ≥ kMaxPeers then t
    else t.insert nodeId { nodeId, ed25519Pubkey := pubkey, host, p2pPort, lastSeenMs := nowMs,
                           handshakeProven := true }
  | some existing => t.insert nodeId { existing with
      ed25519Pubkey := pubkey
      host := if host ≠ [] then host else existing.host
      p2pPort := if p2pPort ≠ 0 then p2pPort else existing.p2pPort
      handshakeProven := true
      lastSeenMs := nowMs }

/-- `AdoptIdentity`. -/
def adoptIdentity (oldId realId : Bytes) : Bool × PeerTable :=
  if (text "bootstrap#").isPrefixOf oldId = false ∨ realId = [] ∨ oldId = realId then (false, t)
  else
    match t.get oldId with
    | none => (false, t)
    | some drop =>
      match t.get realId with
      | some keep => (true, (t.erase oldId).insert realId { keep with
          lastSeenMs := max keep.lastSeenMs drop.lastSeenMs
          host := if keep.host = [] then drop.host else keep.host
          p2pPort := if keep.p2pPort = 0 then drop.p2pPort else keep.p2pPort
          ed25519Pubkey := if keep.ed25519Pubkey = [] then drop.ed25519Pubkey
            else keep.ed25519Pubkey })
      | none => (true, (t.erase oldId).insert realId { drop with nodeId := realId })

/-- `RecordProbe`, with the success rate that the moving average gives. -/
def recordProbe (successRate : Double) : PeerTable :=
  match t.get nodeId with
  | none => t
  | some e => t.insert nodeId { e with successRate, probes := e.probes + 1 }

/-- `SetState`. -/
def setState (state : NodeLifecycleState) : PeerTable :=
  match t.get nodeId with
  | none => t
  | some e => if validNodeTransition e.state state then t.insert nodeId { e with state } else t

end PeerTable

/-! ## The callers -/

/-- A beacon over UDP, as `UdpDiscovery::ListenLoop` reads it. -/
structure UdpBeacon where
  nodeId : Bytes
  pubkey : Bytes
  p2pPort : UInt16
  apiPort : UInt16 := 0
  hostname : Bytes := []
  isSupervisor : Bool := false
  /-- There is no cluster secret, or the tag is the one it gives. -/
  tagged : Bool := true

/-- A node's table, and the entries its threads have read from it. -/
structure PeerProcess where
  /-- The node id of this node. -/
  self : Bytes
  table : PeerTable := {}
  copies : List PeerEntry := []
  /-- The node ids that handshakes have proven, whose requests `HandleRequest` is called with. -/
  sessions : List Bytes := []

/-- A step of one of the threads that use the table. -/
inductive PeerEvent where
  /-- `UdpDiscovery::ListenLoop` receives a datagram. -/
  | beacon (order : MapOrder (Bytes × PeerEntry)) (nowMs : Int64) (host : Bytes) (b : UdpBeacon)
  /-- `MdnsDiscovery::ListenLoop` receives a datagram. -/
  | mdns (order : MapOrder (Bytes × PeerEntry)) (nodeId host : Bytes) (p2pPort apiPort : UInt16)
  /-- `Start` adds a bootstrap peer. -/
  | bootstrap (order : MapOrder (Bytes × PeerEntry)) (nowMs : Int64) (spec host : Bytes)
      (p2pPort : UInt16)
  /-- The transport has made a handshake. -/
  | handshake (nowMs : Int64) (nodeId pubkey host : Bytes) (p2pPort : UInt16)
  /-- A thread reads an entry, by `Get` or `List`. -/
  | read (nodeId : Bytes)
  /-- `HandleRequest` writes a copy back, for liveness. -/
  | contact (order : MapOrder (Bytes × PeerEntry)) (nowMs : Int64) (copy : PeerEntry)
  /-- `HandleHeartbeat` writes a copy back, of a supervisor. -/
  | heartbeat (order : MapOrder (Bytes × PeerEntry)) (copy : PeerEntry)
  /-- `ProbePeer` writes a copy back, for a peer that has answered. -/
  | probe (order : MapOrder (Bytes × PeerEntry)) (nowMs : Int64) (copy : PeerEntry) (nodeId : Bytes)
      (isSupervisor : Bool)
  | recordProbe (nodeId : Bytes) (successRate : Double)
  | adopt (oldId realId : Bytes)
  | setState (nodeId : Bytes) (state : NodeLifecycleState)

namespace PeerProcess

variable (c : Crypto) (p : PeerProcess) (nowMs : Int64)

/-- The entry of a beacon. -/
def beaconEntry (host : Bytes) (b : UdpBeacon) : PeerEntry where
  nodeId := b.nodeId
  ed25519Pubkey := b.pubkey
  host := host
  p2pPort := b.p2pPort
  apiPort := b.apiPort
  hostname := b.hostname
  lastSeenMs := nowMs
  isSupervisor := b.isSupervisor

/-- The checks of `UdpDiscovery::ListenLoop`. -/
def acceptsBeacon (b : UdpBeacon) : Bool :=
  decide (b.nodeId ≠ p.self) && decide (b.pubkey.length = 32) && decide (b.nodeId.length = 32) &&
    decide (deriveNodeId c b.pubkey = b.nodeId) && decide (b.p2pPort ≠ 0) && b.tagged

/-- The checks of `MdnsDiscovery::ListenLoop`. -/
def acceptsMdns (nodeId : Bytes) : Bool :=
  decide (nodeId ≠ p.self) && decide (nodeId.length = 32)

variable (copy : PeerEntry)

/-- The copy was read, for a request of a peer that a handshake has proven. -/
def inContact : Bool :=
  decide (copy ∈ p.copies) && decide (copy.nodeId ∈ p.sessions)

/-- The copy was read, to be written back under the node id.  That is another one than its own only
for a placeholder that `AdoptIdentity` has retired. -/
def inProbe (nodeId : Bytes) : Bool :=
  decide (copy ∈ p.copies) &&
    (decide (nodeId = copy.nodeId) || (text "bootstrap#").isPrefixOf copy.nodeId)

/-- The copy that a probe writes back. -/
def probed (nodeId : Bytes) (isSupervisor : Bool) : PeerEntry :=
  { copy with
    nodeId
    lastSeenMs := nowMs
    isSupervisor := if isSupervisor then true else copy.isSupervisor
    state := if copy.state = .kDegraded then .kRunning else copy.state }

/-- The table after a step. -/
def next : PeerEvent → PeerTable
  | .beacon order nowMs host b =>
    if p.acceptsBeacon c b then p.table.upsert order (beaconEntry nowMs host b) .kDiscovery
    else p.table
  | .mdns order nodeId host p2pPort apiPort =>
    if p.acceptsMdns nodeId then p.table.upsert order { nodeId, host, p2pPort, apiPort } .kMdns
    else p.table
  | .bootstrap order nowMs spec host p2pPort =>
    p.table.upsert order
      { nodeId := text "bootstrap#" ++ spec, host, p2pPort, lastSeenMs := nowMs } .kBootstrap
  | .handshake nowMs nodeId pubkey host p2pPort =>
    -- `VerifyHello` refuses any other pair.
    if deriveNodeId c pubkey = nodeId then
      p.table.markHandshakeProven nowMs nodeId pubkey host p2pPort
    else p.table
  | .read _ => p.table
  | .contact order nowMs copy =>
    if p.inContact copy then p.table.upsert order { copy with lastSeenMs := nowMs } .kHandshake
    else p.table
  | .heartbeat order copy =>
    if p.inContact copy then p.table.upsert order { copy with isSupervisor := true } .kProbe
    else p.table
  | .probe order nowMs copy nodeId isSupervisor =>
    if p.inProbe copy nodeId then
      p.table.upsert order (probed nowMs copy nodeId isSupervisor) .kProbe
    else p.table
  | .recordProbe nodeId successRate => p.table.recordProbe nodeId successRate
  | .adopt oldId realId => (p.table.adoptIdentity oldId realId).2
  | .setState nodeId state => p.table.setState nodeId state

/-- One step. -/
def step (event : PeerEvent) : PeerProcess × Unit :=
  ({ p with
      table := p.next c event
      copies := match event with
        | .read nodeId => (p.table.get nodeId).toList ++ p.copies
        | _ => p.copies
      sessions := match event with
        | .handshake _ nodeId pubkey _ _ =>
          if deriveNodeId c pubkey = nodeId then nodeId :: p.sessions else p.sessions
        | _ => p.sessions }, ())

end PeerProcess

end DeSentry
