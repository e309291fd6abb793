import DeSentry.Construction.Net.SecureChannel
import DeSentry.Framework.DolevYao

/-!
# The handshake (`net/secure_channel.cpp`, `net/tcp_transport.cpp`)

`ClientHandshake` and `ServerHandshake` as they run between honest nodes over a network that belongs
to an attacker.  Messages are terms, so that signatures, the key agreement, the key derivation and
the cipher are ideal.  The key pairs of the nodes are numbered, and every session has an ephemeral
exponent of its own.

`HandleConnection` and `SendRequest` of the transport are part of a session: behind the handshake
they reject a connection to the node itself, exchange one request and one response, and invoke the
handshake callback when the frame of the other side has opened.

Nodes sign other things with the same key too (ledger entries, receipts, held chunks).  These are
plain bytes here, which differ from the ephemeral keys and the transcripts of a handshake.
-/

namespace DeSentry

open ByteCodec

/-- Where an ephemeral exponent comes from. -/
inductive Ephemeral where
  | session (index : ℕ)
  | attacker (n : ℕ)
  deriving DecidableEq, Repr

/-- An order of the public keys, in the place of that of their bytes. -/
def Ephemeral.rank : Ephemeral → ℕ
  | .session index => 2 * index
  | .attacker n => 2 * n + 1

/-- A message, over bytes, numbered key pairs and ephemeral exponents. -/
abbrev HandshakeTerm := DolevYao.Term Bytes ℕ Ephemeral

/-! ## Payloads -/

/-- `struct HelloPayload`. -/
structure HelloPayload where
  nodeId : HandshakeTerm
  ed25519Pubkey : HandshakeTerm
  x25519EphemeralPubkey : HandshakeTerm
  signature : HandshakeTerm
  p2pPort : UInt16
  membershipTag : HandshakeTerm
  deriving DecidableEq

/-- `DeriveNodeId`. -/
def nodeIdOf (pubkey : HandshakeTerm) : HandshakeTerm := .hash pubkey

/-- `HelloPayload::Encode` in an `EncodeMessage`. -/
def HelloPayload.encode (h : HelloPayload) : HandshakeTerm :=
  .pair (.atom [1]) (.pair h.nodeId (.pair h.ed25519Pubkey (.pair h.x25519EphemeralPubkey
    (.pair h.signature (.pair (.atom (leBytes 2 h.p2pPort.toNat)) h.membershipTag)))))

/-- `RecvPlain` and `HelloPayload::Decode`; a payload may end before the membership tag. -/
def HelloPayload.decode : HandshakeTerm → Option HelloPayload
  | .pair (.atom [1]) (.pair nodeId (.pair pubkey (.pair ephemeral
      (.pair signature (.pair (.atom port) tag))))) =>
    some ⟨nodeId, pubkey, ephemeral, signature, UInt16.ofNat (leValue port), tag⟩
  | .pair (.atom [1]) (.pair nodeId (.pair pubkey (.pair ephemeral
      (.pair signature (.atom port))))) =>
    some ⟨nodeId, pubkey, ephemeral, signature, UInt16.ofNat (leValue port), .atom []⟩
  | _ => none

/-- A `ConfirmPayload` in an `EncodeMessage`. -/
def encodeConfirm (signature : HandshakeTerm) : HandshakeTerm := .pair (.atom [16]) signature

/-- `RecvPlain` and `ConfirmPayload::Decode`. -/
def decodeConfirm : HandshakeTerm → Option HandshakeTerm
  | .pair (.atom [16]) signature => some signature
  | _ => none

/-- `TranscriptMessage`. -/
def transcriptMessage (clientHello serverHello : HandshakeTerm) : HandshakeTerm :=
  .pair (.atom (text "DSN-HS-v2" ++ [0])) (.pair clientHello serverHello)

/-- `MembershipHelloMessage`. -/
def membershipHelloMessage (ephemeral : HandshakeTerm) : HandshakeTerm :=
  .pair (.atom (text "DSN-MEMBER-HELLO-v1")) ephemeral

variable (clusterSecret : Bytes)

/-- `HmacSha256` with the secret of a cluster. -/
def membershipTag (ephemeral : HandshakeTerm) : HandshakeTerm :=
  .mac (.atom clusterSecret) (membershipHelloMessage ephemeral)

/-- `NodeIdentity::Verify`. -/
def verifySignature (pubkey message signature : HandshakeTerm) : Bool :=
  match pubkey, signature with
  | .pubKey a, .sign b m => decide (a = b) && decide (m = message)
  | _, _ => false

/-- `VerifyHello`. -/
def verifyHello (h : HelloPayload) : Except Status Unit :=
  if nodeIdOf h.ed25519Pubkey ≠ h.nodeId then
    .error ⟨.authError, text "node_id does not match SHA-256(public_key)"⟩
  else if !verifySignature h.ed25519Pubkey h.x25519EphemeralPubkey h.signature then
    .error ⟨.authError, text "HELLO signature verification failed"⟩
  else if clusterSecret = [] then .ok ()
  else if h.membershipTag = .atom [] then
    .error ⟨.authError, text "peer offered no membership tag; cluster requires one"⟩
  else if h.membershipTag ≠ membershipTag clusterSecret h.x25519EphemeralPubkey then
    .error ⟨.authError, text "membership tag mismatch; not our cluster"⟩
  else .ok ()

/-! ## Sessions -/

/-- The keys of a session; each is used for one frame, with the counter zero. -/
structure AgreedKeys where
  sendKey : HandshakeTerm
  recvKey : HandshakeTerm
  deriving DecidableEq

/-- What a session waits for. -/
inductive HandshakeStage where
  | hello
  | confirm
  | frame
  /-- The handshake callback was invoked. -/
  | called
  | closed (why : Failure)
  deriving DecidableEq

/-- A connection of an honest node. -/
structure Session where
  /-- The key pair of the node. -/
  owner : ℕ
  role : ChannelSide
  /-- The number of the session, which is also that of its ephemeral exponent. -/
  index : ℕ
  p2pPort : UInt16
  clusterSecret : Bytes
  /-- `peer_hello`. -/
  peer : Option HelloPayload := none
  /-- The transcript is signed. -/
  confirmed : Bool := false
  keys : Option AgreedKeys := none
  stage : HandshakeStage := .hello

namespace Session

variable (s : Session)

/-- The ephemeral exponent. -/
def ephemeral : Ephemeral := .session s.index

/-- `our_hello`. -/
def ourHello : HelloPayload where
  nodeId := nodeIdOf (.pubKey s.owner)
  ed25519Pubkey := .pubKey s.owner
  x25519EphemeralPubkey := .power s.ephemeral
  signature := .sign s.owner (.power s.ephemeral)
  p2pPort := s.p2pPort
  membershipTag := if s.clusterSecret = [] then .atom []
    else membershipTag s.clusterSecret (.power s.ephemeral)

variable (peer : HelloPayload)

/-- The HELLO of the client and that of the server. -/
def hellos : HelloPayload × HelloPayload :=
  match s.role with
  | .client => (s.ourHello, peer)
  | .server => (peer, s.ourHello)

/-- The transcript that both sides sign. -/
def transcript : HandshakeTerm :=
  transcriptMessage (s.hellos peer).1.encode (s.hellos peer).2.encode

/-- `CanonicalSalt`. -/
def canonicalSalt (x y : Ephemeral) : HandshakeTerm :=
  if x.rank < y.rank then .pair (.power x) (.power y) else .pair (.power y) (.power x)

/-- The `salt` of both handshakes. -/
def salt (clientEphemeral serverEphemeral : Ephemeral) (clientId serverId : HandshakeTerm) :
    HandshakeTerm :=
  .hash (.pair (canonicalSalt clientEphemeral serverEphemeral)
    (.pair (.atom (text "desentry-kdf-v2")) (.pair clientId serverId)))

/-- The keys of the session, for a peer whose ephemeral exponent is `y`.  The pair of the exponents
has no order; it is written with that of the client first. -/
def keysFor (y : Ephemeral) : AgreedKeys :=
  match s.role with
  | .client =>
    let shared : HandshakeTerm := .shared s(s.ephemeral, y)
    let salt := salt s.ephemeral y (nodeIdOf (.pubKey s.owner)) peer.nodeId
    ⟨.kdf shared salt (text "desentry-c2s"), .kdf shared salt (text "desentry-s2c")⟩
  | .server =>
    let shared : HandshakeTerm := .shared s(y, s.ephemeral)
    let salt := salt y s.ephemeral peer.nodeId (nodeIdOf (.pubKey s.owner))
    ⟨.kdf shared salt (text "desentry-s2c"), .kdf shared salt (text "desentry-c2s")⟩

/-- `X25519Ecdh` and what is derived from it; a key that is not a point makes it throw. -/
def agree : Option AgreedKeys :=
  match peer.x25519EphemeralPubkey with
  | .power y => some (s.keysFor peer y)
  | _ => none

/-- The session ends with a failure. -/
def close (why : Failure) : Session × List HandshakeTerm := ({ s with stage := .closed why }, [])

/-- The name of the other side in a failure. -/
def otherSide : Bytes :=
  match s.role with
  | .client => text "server"
  | .server => text "client"

variable (t : HandshakeTerm)

/-- The HELLO of the peer arrives. -/
def onHello : Session × List HandshakeTerm :=
  match HelloPayload.decode t with
  | none => s.close (.status ⟨.authError, text "expected HELLO from " ++ s.otherSide⟩)
  | some peer =>
    match verifyHello s.clusterSecret peer with
    | .error st => s.close (.status st)
    | .ok () =>
      match s.role with
      | .client =>
        ({ s with peer := some peer, confirmed := true, stage := .confirm },
          [encodeConfirm (.sign s.owner (s.transcript peer))])
      | .server => ({ s with peer := some peer, stage := .confirm }, [s.ourHello.encode])

/-- Behind the handshake: the keys are there, and a connection to the node itself is rejected.  The
client sends its request. -/
def established (request : Bytes) : Session × List HandshakeTerm :=
  match s.agree peer with
  | none => s.close .thrown
  | some keys =>
    let s := { s with keys := some keys }
    if peer.nodeId = nodeIdOf (.pubKey s.owner) then
      s.close (.status ⟨.authError, text "refusing P2P self-connection"⟩)
    else
      match s.role with
      | .client => ({ s with stage := .frame }, [.enc keys.sendKey 0 (.atom request)])
      | .server => ({ s with stage := .frame }, [])

/-- The CONFIRM of the peer arrives.  The server signs only now. -/
def onConfirm (request : Bytes) : Session × List HandshakeTerm :=
  match s.peer, decodeConfirm t with
  | some peer, some signature =>
    if !verifySignature peer.ed25519Pubkey (s.transcript peer) signature then
      s.close (.status ⟨.authError, text "CONFIRM signature verification failed"⟩)
    else
      match s.role with
      | .client => s.established peer request
      | .server =>
        let (s', sent) := { s with confirmed := true }.established peer request
        (s', encodeConfirm (.sign s.owner (s.transcript peer)) :: sent)
  | _, _ => s.close (.status ⟨.authError, text "expected CONFIRM from " ++ s.otherSide ++
      text " (old peer without H-5 support?)"⟩)

/-- The encrypted frame of the peer arrives, and the callback is invoked.  The server sends its
response. -/
def onFrame (response : Bytes) : Session × List HandshakeTerm :=
  match s.keys, t with
  | some keys, .enc key nonce plaintext =>
    if key = keys.recvKey ∧ nonce = 0 then
      if plaintext = .atom [] then s.close (.status ⟨.invalidArgument, text "empty message"⟩)
      else
        match s.role with
        | .client => ({ s with stage := .called }, [])
        | .server => ({ s with stage := .called }, [.enc keys.sendKey 0 (.atom response)])
    else s.close (.status ⟨.authError,
      text "AEAD authentication failed (corrupt or tampered message)"⟩)
  | _, _ => s.close (.status ⟨.authError,
      text "AEAD authentication failed (corrupt or tampered message)"⟩)

/-- A message arrives, and the node has `payload` to send next. -/
def receive (payload : Bytes) : Session × List HandshakeTerm :=
  match s.stage with
  | .hello => s.onHello t
  | .confirm => s.onConfirm t payload
  | .frame => s.onFrame t payload
  | .called => (s, [])
  | .closed _ => (s, [])

/-- The node id and the public key that the handshake callback was invoked with. -/
def callback : Option (HandshakeTerm × HandshakeTerm) :=
  if s.stage = .called then s.peer.map fun peer => (peer.nodeId, peer.ed25519Pubkey) else none

end Session

/-! ## The network -/

/-- The sessions of all honest nodes, and everything they have sent. -/
structure HandshakeNet where
  sessions : List Session := []
  sent : List HandshakeTerm := []

/-- A step of a node or of the attacker. -/
inductive HandshakeAction where
  /-- `SendRequest` dials, to anyone. -/
  | dial (owner : ℕ) (p2pPort : UInt16) (clusterSecret : Bytes)
  /-- `AcceptLoop` takes a connection, from anyone. -/
  | accept (owner : ℕ) (p2pPort : UInt16) (clusterSecret : Bytes)
  /-- The attacker delivers a message to a session. -/
  | deliver (index : ℕ) (t : HandshakeTerm) (payload : Bytes)
  /-- A node signs something else, and publishes it. -/
  | signs (owner : ℕ) (bytes : Bytes)

namespace HandshakeNet

variable (net : HandshakeNet)

/-- The new session of a node. -/
def fresh (owner : ℕ) (role : ChannelSide) (p2pPort : UInt16) (clusterSecret : Bytes) :
    Session where
  owner := owner
  role := role
  index := net.sessions.length
  p2pPort := p2pPort
  clusterSecret := clusterSecret

/-- One step. -/
def step : HandshakeAction → HandshakeNet × Unit
  | .dial owner p2pPort clusterSecret =>
    let s := net.fresh owner .client p2pPort clusterSecret
    ({ sessions := net.sessions ++ [s], sent := s.ourHello.encode :: net.sent }, ())
  | .accept owner p2pPort clusterSecret =>
    ({ net with sessions := net.sessions ++ [net.fresh owner .server p2pPort clusterSecret] }, ())
  | .deliver index t payload =>
    match net.sessions[index]? with
    | none => (net, ())
    | some s =>
      let (s', sent) := s.receive t payload
      ({ sessions := net.sessions.set index s', sent := sent ++ net.sent }, ())
  | .signs owner bytes => ({ net with sent := .sign owner (.atom bytes) :: net.sent }, ())

/-- An exponent of the attacker. -/
def Attackers : Ephemeral → Prop
  | .session _ => False
  | .attacker _ => True

variable (honest : ℕ → Prop)

/-- What the attacker knows, if the key pairs that are not honest are its own. -/
def Knows : HandshakeTerm → Prop :=
  DolevYao.Derives (fun a => ¬ honest a) Attackers net.sent

/-- The steps that are possible: the sessions are those of honest nodes, and the attacker delivers
what it knows. -/
def Possible : HandshakeAction → Prop
  | .dial owner _ _ => honest owner
  | .accept owner _ _ => honest owner
  | .deliver _ t _ => net.Knows honest t
  | .signs owner _ => honest owner

end HandshakeNet

end DeSentry
