import DeSentry.Construction.Net.Gossip

/-!
# A mesh of nodes

Correct nodes that push broadcasts to each other, with the broadcasts that are on their way.  A node
does whatever `NetworkManager.step` lets it do; a broadcast it is handed that way comes from a peer
outside the mesh, with any content.  The broadcasts it sends are put on their way, and each of them
is delivered to the node it is addressed to, in any order.

A broadcast on its way carries the number of correct nodes that have forwarded it.  A node that
forwards one is reported with the ids in its dedup window at that time.
-/

namespace DeSentry

open ByteCodec

namespace NetworkManager

/-- The `kMaxRelayTtl` of `HandleOpBroadcast`. -/
def kMaxRelayTtl : ℕ := 3

/-- A broadcast on its way. -/
structure Packet where
  sender : Bytes
  receiver : Bytes
  payload : OpBroadcastPayload
  /-- The correct nodes that have forwarded it. -/
  hops : ℕ
  deriving DecidableEq, Repr

/-- The nodes and the broadcasts between them. -/
structure Mesh where
  node : Bytes → NetworkManager
  inFlight : List Packet := []

/-- A node has forwarded a broadcast. -/
structure Relay where
  node : Bytes
  messageId : Bytes
  /-- The dedup window when the broadcast arrived. -/
  window : List Bytes
  deriving DecidableEq, Repr

/-- What can happen. -/
inductive MeshEvent where
  /-- Something at a node, other than the delivery of a broadcast of the mesh. -/
  | act (id : Bytes) (event : Event)
  | deliver (i : ℕ) (env : BroadcastEnv)

namespace Mesh

/-- The broadcasts among the messages a node sends. -/
def packets (sender : Bytes) (hops : ℕ) (sent : List Outbound) : List Packet :=
  sent.filterMap fun m =>
    match m.message with
    | .opBroadcast payload => some ⟨sender, m.peer, payload, hops⟩
    | _ => none

/-- The state after a node has sent something. -/
def sends (m : Mesh) (id : Bytes) (net : NetworkManager) (new : List Packet) : Mesh where
  node := Function.update m.node id net
  inFlight := m.inFlight ++ new

/-- A node receives a broadcast that was forwarded `hops` times. -/
def receive (c : Crypto) (m : Mesh) (id : Bytes) (env : BroadcastEnv) (sender : Bytes)
    (payload : OpBroadcastPayload) (hops : ℕ) : Mesh × Option Relay :=
  let (net, sent) := (m.node id).handleOpBroadcast c env sender payload
  let new := packets id (hops + 1) sent
  (m.sends id net new,
    if new = [] then none else some ⟨id, payload.messageId, (m.node id).dedup.order⟩)

/-- One event, and the node that forwarded a broadcast in it. -/
def step (c : Crypto) (m : Mesh) : MeshEvent → Mesh × Option Relay
  | .act id (.opBroadcast env peer payload) => m.receive c id env peer payload 0
  | .act id event =>
    let (net, sent) := (m.node id).step c event
    (m.sends id net (packets id 0 sent), none)
  | .deliver i env =>
    match m.inFlight[i]? with
    | none => (m, none)
    | some p =>
      receive c { m with inFlight := m.inFlight.eraseIdx i } p.receiver env p.sender p.payload p.hops

end Mesh

end NetworkManager

end DeSentry
