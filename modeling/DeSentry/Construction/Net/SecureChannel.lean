import DeSentry.Construction.Common.ByteBuffer
import DeSentry.Construction.Security.AtRest

/-!
# The secure channel (`net/secure_channel.cpp`, `net/wire_protocol.cpp`)

After a handshake each side has two keys, one for each direction, and two counters.  A message is
sealed with the key and the counter of its direction and sent as one frame.  The receiving side
opens a frame with its own counter, and advances it only if the frame is authentic.

This file has the framing, the derivation of the keys, and a connection of two endpoints over a
network that gives each call whatever bytes it likes.  How the two sides come to the shared secret
is not part of it.
-/

namespace DeSentry

open ByteCodec

/-! ## Messages and frames -/

/-- `struct WireMessage`, with the byte of its type and its payload as they are sent. -/
structure RawMessage where
  type : UInt8
  payload : Bytes
  deriving DecidableEq, Repr

/-- `EncodeMessage`. -/
def encodeMessage (msg : RawMessage) : Bytes := msg.type :: msg.payload

/-- `DecodeMessage`. -/
def decodeMessage : Bytes → Except Status RawMessage
  | [] => .error ⟨.invalidArgument, text "empty message"⟩
  | type :: payload => .ok { type, payload }

/-- What `WriteFrame` sends: the length in network order, then the bytes. -/
def writeFrame (bytes : Bytes) : Bytes := (leBytes 4 bytes.length).reverse ++ bytes

/-- `ReadFrame`, on all that the socket gives until it is closed. -/
def readFrame (maxLen : ℕ) (stream : Bytes) : Except Status Bytes :=
  if stream.length < 4 then
    .error ⟨.networkError, text "connection closed while reading frame length"⟩
  else
    let len := leValue (stream.take 4).reverse
    if len > maxLen then
      .error ⟨.invalidArgument, text "frame exceeds max_len (" ++ decimal len ++ text " > " ++
        decimal maxLen ++ text ")"⟩
    else if (stream.drop 4).length < len then
      .error ⟨.networkError, text "connection closed while reading frame body"⟩
    else .ok ((stream.drop 4).take len)

/-! ## Sessions -/

/-- `struct SessionKeys`. -/
structure SessionKeys where
  sendKey : Bytes
  recvKey : Bytes
  sendCounter : UInt64 := 0
  recvCounter : UInt64 := 0
  deriving DecidableEq, Repr

/-- `CounterNonce`: the counter, its highest byte first, and four zeros. -/
def counterNonce (counter : UInt64) : Bytes :=
  (ByteWriter.u64 counter).reverse ++ List.replicate 4 0

/-- `CanonicalSalt`. -/
def canonicalSalt (a b : Bytes) : Bytes := if a < b then a ++ b else b ++ a

namespace SessionKeys

variable (c : Crypto)

/-- The `salt` of both handshakes. -/
def salt (clientEphemeral serverEphemeral clientId serverId : Bytes) : Bytes :=
  c.sha256 (canonicalSalt clientEphemeral serverEphemeral ++ text "desentry-kdf-v2" ++ clientId ++
    serverId)

/-- The `c2s` of both handshakes. -/
def clientToServer (shared salt : Bytes) : Bytes :=
  c.hkdfSha256 shared salt (text "desentry-c2s") 32

/-- The `s2c` of both handshakes. -/
def serverToClient (shared salt : Bytes) : Bytes :=
  c.hkdfSha256 shared salt (text "desentry-s2c") 32

/-- The keys of `ClientHandshake`. -/
def ofClient (shared salt : Bytes) : SessionKeys where
  sendKey := clientToServer c shared salt
  recvKey := serverToClient c shared salt

/-- The keys of `ServerHandshake`. -/
def ofServer (shared salt : Bytes) : SessionKeys where
  sendKey := serverToClient c shared salt
  recvKey := clientToServer c shared salt

variable (keys : SessionKeys)

/-- `SendEncrypted` up to its `WriteFrame`; `AesGcmSeal` may fail.  The counter is advanced in any
case. -/
def sendEncrypted (failure : Option Status) (msg : RawMessage) : Except Status Bytes × SessionKeys :=
  let next := { keys with sendCounter := keys.sendCounter + 1 }
  match failure with
  | some st => (.error st, next)
  | none => (.ok (writeFrame (c.aesGcmSeal keys.sendKey (counterNonce keys.sendCounter)
      (encodeMessage msg) [])), next)

/-- `RecvEncrypted`. -/
def recvEncrypted (maxLen : ℕ) (stream : Bytes) : Except Status RawMessage × SessionKeys :=
  match readFrame maxLen stream with
  | .error st => (.error st, keys)
  | .ok frame =>
    match c.aesGcmOpen keys.recvKey (counterNonce keys.recvCounter) frame [] with
    | none =>
      (.error ⟨.authError, text "AEAD authentication failed (corrupt or tampered message)"⟩, keys)
    | some plaintext =>
      (decodeMessage plaintext, { keys with recvCounter := keys.recvCounter + 1 })

end SessionKeys

/-! ## Connections -/

/-- A side of a connection. -/
inductive ChannelSide where
  | client
  | server
  deriving DecidableEq, Repr

/-- The other side. -/
def ChannelSide.peer : ChannelSide → ChannelSide
  | .client => .server
  | .server => .client

/-- The state of a side, with what it has sent and accepted. -/
structure Endpoint where
  keys : SessionKeys
  /-- The messages of the `SendEncrypted` calls, and whether they were sealed. -/
  calls : List (RawMessage × Bool) := []
  /-- The messages that `RecvEncrypted` has returned. -/
  accepted : List RawMessage := []

/-- The messages that were sealed and sent. -/
def Endpoint.sent (e : Endpoint) : List RawMessage := (e.calls.filter Prod.snd).map Prod.fst

/-- A use of `AesGcmSeal`. -/
structure SealUse where
  key : Bytes
  nonce : Bytes
  plaintext : Bytes
  deriving DecidableEq, Repr

/-- A connection, with every use of `AesGcmSeal` on it. -/
structure Channel where
  endpoint : ChannelSide → Endpoint
  seals : List SealUse := []

/-- A call on a connection. -/
inductive ChannelCall where
  | sendEncrypted (side : ChannelSide) (failure : Option Status) (msg : RawMessage)
  /-- The network gives the call any bytes. -/
  | recvEncrypted (side : ChannelSide) (maxLen : ℕ) (stream : Bytes)

namespace Channel

variable (c : Crypto) (ch : Channel)

/-- The connection after a handshake. -/
def opened (shared clientEphemeral serverEphemeral clientId serverId : Bytes) : Channel :=
  let salt := SessionKeys.salt c clientEphemeral serverEphemeral clientId serverId
  { endpoint := fun
      | .client => { keys := .ofClient c shared salt }
      | .server => { keys := .ofServer c shared salt } }

/-- What a `SendEncrypted` passes to `AesGcmSeal`. -/
def sealUse (side : ChannelSide) (msg : RawMessage) : SealUse where
  key := (ch.endpoint side).keys.sendKey
  nonce := counterNonce (ch.endpoint side).keys.sendCounter
  plaintext := encodeMessage msg

/-- The connection with another state of a side. -/
def set (side : ChannelSide) (e : Endpoint) : Channel :=
  { ch with endpoint := Function.update ch.endpoint side e }

/-- One call. -/
def step : ChannelCall → Channel × Except Status Unit
  | .sendEncrypted side failure msg =>
    let e := ch.endpoint side
    let (answer, keys) := e.keys.sendEncrypted c failure msg
    let seals := if failure.isNone then ch.seals ++ [ch.sealUse side msg] else ch.seals
    ({ ch.set side { e with keys, calls := e.calls ++ [(msg, failure.isNone)] } with seals },
      answer.map fun _ => ())
  | .recvEncrypted side maxLen stream =>
    let e := ch.endpoint side
    let (answer, keys) := e.keys.recvEncrypted c maxLen stream
    (ch.set side { e with keys, accepted := e.accepted ++ answer.toOption.toList },
      answer.map fun _ => ())

end Channel

end DeSentry
