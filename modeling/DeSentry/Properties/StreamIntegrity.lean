import DeSentry.Construction.Net.SecureChannel
import DeSentry.Framework.Runs

/-!
# The stream of a secure channel

The network may drop, inject, replay, reorder, truncate and reflect frames: a `RecvEncrypted` gets
any bytes.  The cipher is assumed to be ideal.  What opens with a key and a nonce was sealed with
them before, and the two sides of the connection are the only ones that have the keys.  The key
derivation is assumed to give different keys for the two directions.

`stream_integrity` says that each side accepts a prefix of what the other has sent, and that no key
and nonce seal two different plaintexts.
-/

namespace DeSentry

open ByteCodec List

/-! ## Assumptions -/

/-- The key derivation gives different keys for the two labels. -/
def Crypto.SeparatesDirections (c : Crypto) : Prop :=
  ∀ shared salt, SessionKeys.clientToServer c shared salt ≠ SessionKeys.serverToClient c shared salt

namespace Channel

variable {c : Crypto} {ch : Channel} {shared salt : Bytes}

/-- The cipher is ideal for a call: what opens was sealed before. -/
def Unforged (c : Crypto) (ch : Channel) : ChannelCall → Prop
  | .sendEncrypted _ _ _ => True
  | .recvEncrypted side maxLen stream =>
    let keys := (ch.endpoint side).keys
    ∀ frame plaintext, readFrame maxLen stream = .ok frame →
      c.aesGcmOpen keys.recvKey (counterNonce keys.recvCounter) frame [] = some plaintext →
        ⟨keys.recvKey, counterNonce keys.recvCounter, plaintext⟩ ∈ ch.seals

/-- A side sends fewer than `2 ^ 64` messages. -/
def Countable (ch : Channel) : ChannelCall → Prop
  | .sendEncrypted side _ _ => (ch.endpoint side).calls.length + 1 < 2 ^ 64
  | .recvEncrypted _ _ _ => True

/-! ## Nonces -/

lemma counterNonce_injective : Function.Injective counterNonce := by
  intro m n h
  have hbytes : ByteWriter.u64 m = ByteWriter.u64 n :=
    reverse_injective (append_cancel_right h)
  exact (reads_u64 m).cancel (reads_u64 n) (congrArg (· ++ []) hbytes) |>.1

variable {i : ℕ}

/-- The nonces of different messages are different. -/
lemma counterNonce_ofNat_inj {j : ℕ} (hi : i < 2 ^ 64) (hj : j < 2 ^ 64)
    (h : counterNonce (UInt64.ofNat i) = counterNonce (UInt64.ofNat j)) : i = j := by
  have htoNat := congrArg UInt64.toNat (counterNonce_injective h)
  rwa [UInt64.toNat_ofNat_of_lt' hi, UInt64.toNat_ofNat_of_lt' hj] at htoNat

/-! ## The invariant -/

/-- The key that a side sends with. -/
def sendKey (c : Crypto) (shared salt : Bytes) : ChannelSide → Bytes
  | .client => SessionKeys.clientToServer c shared salt
  | .server => SessionKeys.serverToClient c shared salt

lemma sendKey_injective (h : c.SeparatesDirections) :
    Function.Injective (sendKey c shared salt) := by
  intro a b hab
  cases a <;> cases b
  · rfl
  · exact absurd hab (h shared salt)
  · exact absurd hab.symm (h shared salt)
  · rfl

/-- The counters count, every use of the cipher is a call of one of the two sides, and what a side
has accepted was sent at the same place. -/
structure Inv (c : Crypto) (shared salt : Bytes) (ch : Channel) : Prop where
  keys : ∀ side, (ch.endpoint side).keys =
    { sendKey := sendKey c shared salt side, recvKey := sendKey c shared salt side.peer
      sendCounter := UInt64.ofNat (ch.endpoint side).calls.length
      recvCounter := UInt64.ofNat (ch.endpoint side).accepted.length }
  short : ∀ side, (ch.endpoint side).calls.length < 2 ^ 64
  seals : ∀ u ∈ ch.seals, ∃ side, ∃ i : ℕ, ∃ msg, (ch.endpoint side).calls[i]? = some (msg, true) ∧
    u = ⟨sendKey c shared salt side, counterNonce (UInt64.ofNat i), encodeMessage msg⟩
  accepted : ∀ side (i : ℕ) msg, (ch.endpoint side).accepted[i]? = some msg →
    (ch.endpoint side.peer).calls[i]? = some (msg, true)

lemma Inv.opened (c : Crypto) (shared clientEphemeral serverEphemeral clientId serverId : Bytes) :
    Inv c shared (SessionKeys.salt c clientEphemeral serverEphemeral clientId serverId)
      (opened c shared clientEphemeral serverEphemeral clientId serverId) where
  keys side := by cases side <;> rfl
  short side := by cases side <;> exact Nat.two_pow_pos 64
  seals u hu := absurd hu not_mem_nil
  accepted side i msg h := by cases side <;> cases h

/-- What was accepted is not longer than what was sent. -/
lemma Inv.accepted_short (h : Inv c shared salt ch) (side : ChannelSide) :
    (ch.endpoint side).accepted.length ≤ (ch.endpoint side.peer).calls.length := by
  by_contra hlt
  have hlt := Nat.lt_of_not_le hlt
  have hget := h.accepted side _ _ (getElem?_eq_getElem hlt)
  rw [getElem?_eq_none le_rfl] at hget
  cases hget

variable {side : ChannelSide} {plaintext : Bytes}

/-- A use of the cipher with the key of a side and the nonce of a number is the call of that
number. -/
lemma Inv.call_of_seal (h : Inv c shared salt ch) (hdirections : c.SeparatesDirections)
    (hi : i < 2 ^ 64)
    (hseal : ⟨sendKey c shared salt side, counterNonce (UInt64.ofNat i), plaintext⟩ ∈ ch.seals) :
    ∃ msg, (ch.endpoint side).calls[i]? = some (msg, true) ∧ plaintext = encodeMessage msg := by
  obtain ⟨side', j, msg, hcall, heq⟩ := h.seals _ hseal
  obtain ⟨hkey, hnonce, hplain⟩ := SealUse.mk.inj heq
  obtain rfl := sendKey_injective hdirections hkey
  obtain ⟨hj, -⟩ := List.getElem?_eq_some_iff.mp hcall
  obtain rfl := counterNonce_ofNat_inj hi (hj.trans (h.short side)) hnonce
  exact ⟨msg, hcall, hplain⟩

/-! ## Steps -/

lemma endpoint_set (ch : Channel) (side side' : ChannelSide) (e : Endpoint) :
    (ch.set side e).endpoint side' = if side' = side then e else ch.endpoint side' := by
  exact Function.update_apply ..

lemma set_self (ch : Channel) (side : ChannelSide) : ch.set side (ch.endpoint side) = ch := by
  rw [set, Function.update_eq_self]

variable {calls : List (RawMessage × Bool)}

/-- The number of a call does not change when calls are added. -/
lemma getElem?_append_of_some {rest : List (RawMessage × Bool)} {call : RawMessage × Bool}
    (h : calls[i]? = some call) : (calls ++ rest)[i]? = some call := by
  obtain ⟨hi, -⟩ := List.getElem?_eq_some_iff.mp h
  rwa [getElem?_append_left hi]

/-- A side after a `SendEncrypted`: the counter is advanced in any case. -/
def sending (e : Endpoint) (msg : RawMessage) (isSealed : Bool) : Endpoint where
  keys := { e.keys with sendCounter := e.keys.sendCounter + 1 }
  calls := e.calls ++ [(msg, isSealed)]
  accepted := e.accepted

lemma endpoint_sendEncrypted (ch : Channel) (side side' : ChannelSide) (failure : Option Status)
    (msg : RawMessage) : (ch.step c (.sendEncrypted side failure msg)).1.endpoint side' =
      if side' = side then sending (ch.endpoint side) msg failure.isNone
      else ch.endpoint side' := by
  cases failure <;> exact endpoint_set ..

/-- A side after a `RecvEncrypted` that has returned a message. -/
def receiving (e : Endpoint) (msg : RawMessage) : Endpoint where
  keys := { e.keys with recvCounter := e.keys.recvCounter + 1 }
  calls := e.calls
  accepted := e.accepted ++ [msg]

lemma Inv.sendEncrypted (h : Inv c shared salt ch) {failure : Option Status} {msg : RawMessage}
    (hcount : Countable ch (.sendEncrypted side failure msg)) :
    Inv c shared salt (ch.step c (.sendEncrypted side failure msg)).1 := by
  have hendpoint := fun side' => endpoint_sendEncrypted (c := c) ch side side' failure msg
  have hgrow : ∀ side' (i : ℕ) call, (ch.endpoint side').calls[i]? = some call →
      ((ch.step c (.sendEncrypted side failure msg)).1.endpoint side').calls[i]? = some call := by
    intro side' i call hcall
    rw [hendpoint]
    split_ifs with hside
    · subst hside
      exact getElem?_append_of_some hcall
    · exact hcall
  refine ⟨fun side' => ?_, fun side' => ?_, fun u hu => ?_, fun side' i m hget => ?_⟩
  · rw [hendpoint]
    split_ifs with hside
    · subst hside
      rw [sending, h.keys, length_append, UInt64.ofNat_add]
      rfl
    · exact h.keys side'
  · rw [hendpoint]
    split_ifs with hside
    · rw [sending, length_append]
      exact hcount
    · exact h.short side'
  · change u ∈ if failure.isNone then ch.seals ++ [ch.sealUse side msg] else ch.seals at hu
    have hcases : u ∈ ch.seals ∨ failure.isNone = true ∧ u = ch.sealUse side msg := by
      split_ifs at hu with hsealed
      · rcases mem_append.mp hu with hu | hu
        · exact Or.inl hu
        · exact Or.inr ⟨hsealed, mem_singleton.mp hu⟩
      · exact Or.inl hu
    rcases hcases with hold | ⟨hsealed, rfl⟩
    · obtain ⟨side', i, m, hcall, heq⟩ := h.seals u hold
      exact ⟨side', i, m, hgrow side' i _ hcall, heq⟩
    · refine ⟨side, (ch.endpoint side).calls.length, msg, ?_, ?_⟩
      · rw [hendpoint, if_pos rfl, sending, hsealed, getElem?_concat_length]
      · rw [sealUse, h.keys]
  · have hold : (ch.endpoint side').accepted[i]? = some m := by
      rw [hendpoint] at hget
      split_ifs at hget with hside
      · subst hside
        exact hget
      · exact hget
    exact hgrow _ i _ (h.accepted side' i m hold)

/-- A frame that opens carries the next message of the other side. -/
lemma Inv.next_message (h : Inv c shared salt ch) (hdirections : c.SeparatesDirections)
    (hseal : ⟨(ch.endpoint side).keys.recvKey, counterNonce (ch.endpoint side).keys.recvCounter,
      plaintext⟩ ∈ ch.seals) :
    ∃ msg, (ch.endpoint side.peer).calls[(ch.endpoint side).accepted.length]? = some (msg, true) ∧
      plaintext = encodeMessage msg := by
  rw [h.keys side] at hseal
  exact h.call_of_seal hdirections ((h.accepted_short side).trans_lt (h.short side.peer)) hseal

lemma Inv.recvEncrypted (h : Inv c shared salt ch) (hdirections : c.SeparatesDirections)
    {maxLen : ℕ} {stream : Bytes} (hideal : Unforged c ch (.recvEncrypted side maxLen stream)) :
    Inv c shared salt (ch.step c (.recvEncrypted side maxLen stream)).1 := by
  -- A call that returns an error has changed nothing.
  have hrefused : ∀ st, (ch.endpoint side).keys.recvEncrypted c maxLen stream =
      (.error st, (ch.endpoint side).keys) →
      Inv c shared salt (ch.step c (.recvEncrypted side maxLen stream)).1 := by
    intro st hrecv
    have hsame : (ch.step c (.recvEncrypted side maxLen stream)).1 = ch := by
      unfold step
      dsimp only
      rw [hrecv]
      change ch.set side { ch.endpoint side with
        accepted := (ch.endpoint side).accepted ++ [] } = ch
      rw [append_nil]
      exact set_self ch side
    rw [hsame]
    exact h
  cases hframe : readFrame maxLen stream with
  | error st =>
    refine hrefused st ?_
    rw [SessionKeys.recvEncrypted, hframe]
  | ok frame =>
    cases hopen : c.aesGcmOpen (ch.endpoint side).keys.recvKey
        (counterNonce (ch.endpoint side).keys.recvCounter) frame [] with
    | none =>
      refine hrefused
        ⟨.authError, text "AEAD authentication failed (corrupt or tampered message)"⟩ ?_
      rw [SessionKeys.recvEncrypted, hframe]
      dsimp only
      rw [hopen]
    | some plaintext =>
      obtain ⟨msg, hcall, rfl⟩ := h.next_message hdirections (hideal frame plaintext hframe hopen)
      have hrecv : (ch.endpoint side).keys.recvEncrypted c maxLen stream =
          (.ok msg, { (ch.endpoint side).keys with
            recvCounter := (ch.endpoint side).keys.recvCounter + 1 }) := by
        rw [SessionKeys.recvEncrypted, hframe]
        dsimp only
        rw [hopen]
        rfl
      have hstep : (ch.step c (.recvEncrypted side maxLen stream)).1 =
          ch.set side (receiving (ch.endpoint side) msg) := by
        unfold step
        dsimp only
        rw [hrecv]
        rfl
      rw [hstep]
      have hcalls : ∀ side', ((ch.set side (receiving (ch.endpoint side) msg)).endpoint
          side').calls = (ch.endpoint side').calls := by
        intro side'
        rw [endpoint_set]
        split_ifs with hside
        · rw [hside, receiving]
        · rfl
      refine ⟨fun side' => ?_, fun side' => ?_, fun u hu => ?_, fun side' i m hget => ?_⟩
      · rw [endpoint_set]
        split_ifs with hside
        · subst hside
          rw [receiving, h.keys, length_append, UInt64.ofNat_add]
          rfl
        · exact h.keys side'
      · rw [hcalls]
        exact h.short side'
      · obtain ⟨side', i, m, hcall', heq⟩ := h.seals u hu
        exact ⟨side', i, m, (congrArg (·[i]?) (hcalls side')).trans hcall', heq⟩
      · rw [hcalls]
        rw [endpoint_set] at hget
        split_ifs at hget with hside
        · subst hside
          rcases Nat.lt_or_ge i (ch.endpoint side').accepted.length with hlt | hge
          · exact h.accepted side' i m ((getElem?_append_left hlt).symm.trans hget)
          · obtain ⟨hi, hm⟩ := List.getElem?_eq_some_iff.mp hget
            have hlast : i = (ch.endpoint side').accepted.length := by
              rw [receiving, length_append, length_singleton] at hi
              omega
            subst hlast
            have hmsg : m = msg := by
              rw [← hm]
              exact getElem_concat_length rfl _
            rw [hmsg]
            exact hcall
        · exact h.accepted side' i m hget

/-! ## The theorem -/

/-- What was sent at the same place is a prefix, without the calls whose seal failed. -/
lemma prefix_of_getElem? {accepted : List RawMessage}
    (h : ∀ (i : ℕ) msg, accepted[i]? = some msg → calls[i]? = some (msg, true)) :
    accepted <+: (calls.filter Prod.snd).map Prod.fst := by
  induction accepted generalizing calls with
  | nil => exact nil_prefix
  | cons msg accepted ih =>
    cases calls with
    | nil => cases h 0 msg rfl
    | cons call calls =>
      obtain rfl := Option.some_inj.mp (h 0 msg rfl)
      have htail := ih fun i m hget => h (i + 1) m hget
      exact prefix_cons_inj _ |>.mpr htail

/-- **Stream integrity**: on a connection that was opened by a handshake, with an ideal cipher and
fewer than `2 ^ 64` messages of each side, a side has accepted a prefix of what the other has sent,
and no key and nonce have sealed two different plaintexts. -/
theorem stream_integrity (c : Crypto) (hdirections : c.SeparatesDirections)
    (shared clientEphemeral serverEphemeral clientId serverId : Bytes) {calls : List ChannelCall}
    (hideal : Runs.Guarded (step c) (Unforged c)
      (opened c shared clientEphemeral serverEphemeral clientId serverId) calls)
    (hcount : Runs.Guarded (step c) Countable
      (opened c shared clientEphemeral serverEphemeral clientId serverId) calls) :
    let ch := Runs.final (step c)
      (opened c shared clientEphemeral serverEphemeral clientId serverId) calls
    (∀ side, (ch.endpoint side).accepted <+: (ch.endpoint side.peer).sent) ∧
      ∀ u ∈ ch.seals, ∀ v ∈ ch.seals, u.key = v.key → u.nonce = v.nonce →
        u.plaintext = v.plaintext := by
  intro ch
  have hinv : Inv c shared
      (SessionKeys.salt c clientEphemeral serverEphemeral clientId serverId) ch := by
    refine Runs.final_invariant (fun ch call hok h => ?_)
      (Inv.opened c shared clientEphemeral serverEphemeral clientId serverId) (hideal.and hcount)
    cases call with
    | sendEncrypted side failure msg => exact h.sendEncrypted hok.2
    | recvEncrypted side maxLen stream => exact h.recvEncrypted hdirections hok.1
  -- The salt is not looked into.
  generalize SessionKeys.salt c clientEphemeral serverEphemeral clientId serverId = salt at hinv
  refine ⟨fun side => prefix_of_getElem? (hinv.accepted side), fun u hu v hv hkey hnonce => ?_⟩
  obtain ⟨side, i, msg, hcall, rfl⟩ := hinv.seals v hv
  obtain ⟨hi, -⟩ := List.getElem?_eq_some_iff.mp hcall
  have hseal : ⟨sendKey c shared salt side, counterNonce (UInt64.ofNat i), u.plaintext⟩ ∈
      ch.seals := by
    obtain ⟨key, nonce, plaintext⟩ := u
    obtain rfl : key = sendKey c shared salt side := hkey
    obtain rfl : nonce = counterNonce (UInt64.ofNat i) := hnonce
    exact hu
  obtain ⟨msg', hcall', hplain⟩ := hinv.call_of_seal hdirections (hi.trans (hinv.short side)) hseal
  obtain rfl := (Prod.mk.inj (Option.some_inj.mp (hcall.symm.trans hcall'))).1
  exact hplain

/-! ## A sample -/

/-- A tag that depends on the key and the nonce. -/
def sampleTag (key nonce : Bytes) : Bytes :=
  ((key.drop 9).take 3 ++ nonce ++ List.replicate 16 0).take 16

lemma length_sampleTag (key nonce : Bytes) : (sampleTag key nonce).length = 16 := by
  rw [sampleTag, length_take, length_append, length_replicate]
  omega

/-- A key derivation that keeps the label, and a cipher with a tag of the key and the nonce. -/
def streamCrypto : Crypto where
  sha256 := sampleCrypto.sha256
  length_sha256 := sampleCrypto.length_sha256
  hkdfSha256 _ _ info n := (info ++ List.replicate n 0).take n
  length_hkdfSha256 _ _ _ n := by simp
  aesGcmSeal key nonce plaintext _ := plaintext ++ sampleTag key nonce
  aesGcmOpen key nonce ctTag _ :=
    if ctTag.drop (ctTag.length - 16) = sampleTag key nonce then
      some (ctTag.take (ctTag.length - 16))
    else none
  length_aesGcmSeal key nonce plaintext _ := by simp [length_sampleTag]
  open_seal key nonce plaintext _ := by simp [length_sampleTag]

lemma streamCrypto_separates : streamCrypto.SeparatesDirections := fun shared salt heq =>
  absurd heq (by decide +kernel : text "desentry-c2s" ++ List.replicate 20 0 ≠
    text "desentry-s2c" ++ List.replicate 20 0)

/-- The client sends a message. -/
def sampleFrame : Bytes :=
  writeFrame (streamCrypto.aesGcmSeal
    (SessionKeys.clientToServer streamCrypto [] (SessionKeys.salt streamCrypto [] [] [] []))
    (counterNonce 0) (encodeMessage ⟨5, [1]⟩) [])

/-- The network delivers the frame, delivers it again, and sends it back to the client. -/
def sampleStream : List ChannelCall :=
  [.sendEncrypted .client none ⟨5, [1]⟩, .recvEncrypted .server 100 sampleFrame,
    .recvEncrypted .server 100 sampleFrame, .recvEncrypted .client 100 sampleFrame]

/-- The connection after these calls. -/
def sampleChannel : Channel :=
  Runs.final (step streamCrypto) (opened streamCrypto [] [] [] [] []) sampleStream

/-- The message is accepted once, by the server. -/
theorem stream_integrity_sample :
    (sampleChannel.endpoint .server).accepted = [⟨5, [1]⟩] ∧
      ∀ side, (sampleChannel.endpoint side).accepted <+:
        (sampleChannel.endpoint side.peer).sent := by
  refine ⟨by decide +kernel, ?_⟩
  refine (stream_integrity streamCrypto streamCrypto_separates [] [] [] [] [] ?_ ?_).1
  · refine ⟨trivial, fun frame plaintext hframe hopen => ?_, fun frame plaintext hframe hopen => ?_,
      fun frame plaintext hframe hopen => ?_, trivial⟩
    · obtain rfl := Except.ok.inj hframe
      obtain rfl := Option.some_inj.mp hopen
      decide +kernel
    · obtain rfl := Except.ok.inj hframe
      cases hopen
    · obtain rfl := Except.ok.inj hframe
      cases hopen
  · exact ⟨(by decide : 0 + 1 < 2 ^ 64), trivial, trivial, trivial, trivial⟩

end Channel

end DeSentry
