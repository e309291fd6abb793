import DeSentry.Construction.Net.Handshake
import DeSentry.Framework.Runs

/-!
# Agreement of the handshake

The attacker has the network: it sees every message, delivers what it can derive to any session, and
any number of sessions of honest nodes run in both roles.

What an honest node has signed, and which keys it seals with, is read off its sessions.  From this
`DolevYao.Derives.publishable` gives what the attacker can know, and one invariant says what each
session may conclude from the messages it has accepted.  `handshake_agreement` is the result: when
the handshake callback is invoked for an honest peer, that peer has run the other role on the same
two HELLO payloads, and it has the keys, which the attacker does not know.
-/

namespace DeSentry

open ByteCodec DolevYao List

namespace Session

variable {honest : ℕ → Prop} {d d' : Deeds Bytes ℕ Ephemeral} {s s' : Session} {t : HandshakeTerm}
  {peer : HelloPayload}

/-! ## What sessions do -/

/-- What the session has signed. -/
def Signs (s : Session) (m : HandshakeTerm) : Prop :=
  m = .power s.ephemeral ∨
    s.confirmed = true ∧ ∃ peer, s.peer = some peer ∧ m = s.transcript peer

/-- The session seals with the key. -/
def SealsWith (s : Session) (key : HandshakeTerm) : Prop :=
  ∃ keys, s.keys = some keys ∧ keys.sendKey = key

/-- What a later state of a session keeps. -/
structure Advances (s s' : Session) : Prop where
  owner : s'.owner = s.owner
  role : s'.role = s.role
  index : s'.index = s.index
  p2pPort : s'.p2pPort = s.p2pPort
  clusterSecret : s'.clusterSecret = s.clusterSecret
  peer : ∀ peer, s.peer = some peer → s'.peer = some peer
  confirmed : s.confirmed = true → s'.confirmed = true
  keys : ∀ keys, s.keys = some keys → s'.keys = some keys

lemma Advances.refl (s : Session) : Advances s s :=
  ⟨rfl, rfl, rfl, rfl, rfl, fun _ h => h, fun h => h, fun _ h => h⟩

lemma Advances.trans {s'' : Session} (h : Advances s s') (h' : Advances s' s'') : Advances s s'' :=
  ⟨h'.owner.trans h.owner, h'.role.trans h.role, h'.index.trans h.index,
    h'.p2pPort.trans h.p2pPort, h'.clusterSecret.trans h.clusterSecret,
    fun peer hpeer => h'.peer peer (h.peer peer hpeer), fun hc => h'.confirmed (h.confirmed hc),
    fun keys hkeys => h'.keys keys (h.keys keys hkeys)⟩

lemma Advances.ourHello (h : Advances s s') : s'.ourHello = s.ourHello := by
  simp only [Session.ourHello, ephemeral, h.owner, h.index, h.p2pPort, h.clusterSecret]

lemma Advances.transcript (h : Advances s s') (peer : HelloPayload) :
    s'.transcript peer = s.transcript peer := by
  simp only [Session.transcript, hellos, h.role, h.ourHello]

lemma Advances.signs (h : Advances s s') {m : HandshakeTerm} (hm : s.Signs m) : s'.Signs m := by
  rcases hm with rfl | ⟨hconfirmed, peer, hpeer, rfl⟩
  · refine Or.inl ?_
    rw [ephemeral, ephemeral, h.index]
  · exact Or.inr ⟨h.confirmed hconfirmed, peer, h.peer peer hpeer, (h.transcript peer).symm⟩

lemma Advances.sealsWith (h : Advances s s') {key : HandshakeTerm} (hkey : s.SealsWith key) :
    s'.SealsWith key := by
  obtain ⟨keys, hkeys, heq⟩ := hkey
  exact ⟨keys, h.keys keys hkeys, heq⟩

/-! ## What a session may conclude -/

/-- The terms the attacker may have. -/
abbrev Public (honest : ℕ → Prop) (d : Deeds Bytes ℕ Ephemeral) : HandshakeTerm → Prop :=
  Publishable (fun a => ¬ honest a) HandshakeNet.Attackers d

/-- The deeds of the session are among them. -/
structure Counted (d : Deeds Bytes ℕ Ephemeral) (s : Session) : Prop where
  signed : ∀ m, s.Signs m → d.Signed s.owner m
  seals : ∀ key, s.SealsWith key → d.Seals key

/-- There are more deeds. -/
structure Fewer (d d' : Deeds Bytes ℕ Ephemeral) : Prop where
  signed : ∀ a m, d.Signed a m → d'.Signed a m
  seals : ∀ key, d.Seals key → d'.Seals key

lemma Fewer.public (h : Fewer d d') (ht : Public honest d t) : Public honest d' t :=
  Publishable.mono (fun _ => id) h.signed h.seals ht

/-- What holds of a session, by its stage. -/
structure Good (honest : ℕ → Prop) (d : Deeds Bytes ℕ Ephemeral) (s : Session) : Prop where
  owner : honest s.owner
  peer : ∀ peer, s.peer = some peer →
    nodeIdOf peer.ed25519Pubkey = peer.nodeId ∧ Public honest d peer.encode
  keys : ∀ keys, s.keys = some keys → ∃ peer y, s.peer = some peer ∧
    peer.x25519EphemeralPubkey = .power y ∧ keys = s.keysFor peer y
  hello : s.stage = .hello → s.peer = none ∧ s.confirmed = false ∧ s.keys = none
  confirm : s.stage = .confirm → s.keys = none
  /-- The peer has confirmed the transcript. -/
  agreed : s.stage = .frame ∨ s.stage = .called → ∃ peer keys, s.peer = some peer ∧
    s.keys = some keys ∧ peer.nodeId ≠ nodeIdOf (.pubKey s.owner) ∧
    ∀ a, honest a → peer.ed25519Pubkey = .pubKey a → d.Signed a (s.transcript peer)
  /-- A frame has opened. -/
  opened : s.stage = .called → ∀ keys, s.keys = some keys →
    Public honest d keys.recvKey ∨ d.Seals keys.recvKey

lemma Good.mono (h : Good honest d s) (hd : Fewer d d') : Good honest d' s where
  owner := h.owner
  peer peer hpeer := ⟨(h.peer peer hpeer).1, hd.public (h.peer peer hpeer).2⟩
  keys := h.keys
  hello := h.hello
  confirm := h.confirm
  agreed hstage := by
    obtain ⟨peer, keys, hpeer, hkeys, hne, hsigned⟩ := h.agreed hstage
    exact ⟨peer, keys, hpeer, hkeys, hne, fun a ha hpub => hd.signed a _ (hsigned a ha hpub)⟩
  opened hstage keys hkeys := (h.opened hstage keys hkeys).imp hd.public (hd.seals _)

/-- A session that is closed concludes nothing. -/
lemma Good.close (h : Good honest d s) (why : Failure) : Good honest d (s.close why).1 where
  owner := h.owner
  peer := h.peer
  keys := h.keys
  hello := nofun
  confirm := nofun
  agreed := nofun
  opened := nofun

lemma advances_close (s : Session) (why : Failure) : Advances s (s.close why).1 :=
  ⟨rfl, rfl, rfl, rfl, rfl, fun _ h => h, fun h => h, fun _ h => h⟩

/-! ## Messages -/

/-- The HELLO of a session may be sent. -/
lemma public_ourHello (honest : ℕ → Prop) (h : Counted d s) :
    Public honest d s.ourHello.encode := by
  have htag : Public honest d s.ourHello.membershipTag := by
    rw [ourHello]
    split_ifs
    · trivial
    · trivial
  exact ⟨trivial, trivial, trivial, trivial, ⟨Or.inr (h.signed _ (Or.inl rfl)), trivial⟩, trivial,
    htag⟩

/-- The CONFIRM of a session may be sent, if it has signed. -/
lemma public_confirm (h : Counted d s) (hconfirmed : s.confirmed = true) {peer : HelloPayload}
    (hpeer : s.peer = some peer) (hpublic : Public honest d peer.encode) :
    Public honest d (encodeConfirm (.sign s.owner (s.transcript peer))) := by
  have hown := public_ourHello honest h
  have htranscript : Public honest d (s.transcript peer) := by
    rw [transcript, hellos]
    cases s.role with
    | client => exact ⟨trivial, hown, hpublic⟩
    | server => exact ⟨trivial, hpublic, hown⟩
  exact ⟨trivial, Or.inr (h.signed _ (Or.inr ⟨hconfirmed, peer, hpeer, rfl⟩)), htranscript⟩

/-- A frame of a session may be sent. -/
lemma public_frame (h : Counted d s) {keys : AgreedKeys} (hkeys : s.keys = some keys)
    (payload : Bytes) : Public honest d (.enc keys.sendKey 0 (.atom payload)) :=
  ⟨Or.inr (h.seals _ ⟨keys, hkeys, rfl⟩), trivial⟩

/-- The fields of a HELLO that arrives are public. -/
lemma public_decode (h : HelloPayload.decode t = some peer) (ht : Public honest d t) :
    Public honest d peer.encode := by
  unfold HelloPayload.decode at h
  split at h
  · obtain rfl := Option.some_inj.mp h
    obtain ⟨-, hid, hkey, heph, hsig, -, htag⟩ := ht
    exact ⟨trivial, hid, hkey, heph, hsig, trivial, htag⟩
  · obtain rfl := Option.some_inj.mp h
    obtain ⟨-, hid, hkey, heph, hsig, -⟩ := ht
    exact ⟨trivial, hid, hkey, heph, hsig, trivial, trivial⟩
  · cases h

/-- A signature that verifies is one of the key. -/
lemma eq_sign_of_verify {pubkey m signature : HandshakeTerm}
    (h : verifySignature pubkey m signature = true) :
    ∃ a, pubkey = .pubKey a ∧ signature = .sign a m := by
  unfold verifySignature at h
  split at h
  · obtain ⟨hab, hm⟩ := Bool.and_eq_true_iff.mp h
    obtain rfl := decide_eq_true_iff.mp hab
    obtain rfl := decide_eq_true_iff.mp hm
    exact ⟨_, rfl, rfl⟩
  · cases h

/-- The CONFIRM of an honest peer that verifies was signed by it. -/
lemma signed_of_verify {signature pubkey m : HandshakeTerm}
    (hdecode : decodeConfirm t = some signature) (ht : Public honest d t)
    (hverify : verifySignature pubkey m signature = true) {a : ℕ} (ha : honest a)
    (hkey : pubkey = .pubKey a) : d.Signed a m := by
  have hpublic : Public honest d signature := by
    unfold decodeConfirm at hdecode
    split at hdecode
    · obtain rfl := Option.some_inj.mp hdecode
      exact ht.2
    · cases hdecode
  obtain ⟨b, hpub, rfl⟩ := eq_sign_of_verify hverify
  obtain rfl : a = b := Term.pubKey.inj (hkey.symm.trans hpub)
  exact hpublic.1.resolve_left fun hcorrupt => hcorrupt ha

lemma nodeId_of_verifyHello {clusterSecret : Bytes}
    (h : verifyHello clusterSecret peer = .ok ()) : nodeIdOf peer.ed25519Pubkey = peer.nodeId := by
  by_contra hne
  rw [verifyHello, if_pos hne] at h
  cases h

/-! ## Steps of a session -/

/-- What a step of a session gives: the session advances, it is good in any deeds that count it, and
what it sends is public there. -/
def Sound (honest : ℕ → Prop) (d : Deeds Bytes ℕ Ephemeral) (s : Session)
    (next : Session × List HandshakeTerm) : Prop :=
  Advances s next.1 ∧ ∀ d', Fewer d d' → Counted d' next.1 →
    Good honest d' next.1 ∧ ∀ t ∈ next.2, Public honest d' t

lemma Good.sound_close (h : Good honest d s) (why : Failure) : Sound honest d s (s.close why) :=
  ⟨advances_close s why, fun _ hd _ => ⟨(h.mono hd).close why, fun _ ht => nomatch ht⟩⟩

lemma Good.onHello (h : Good honest d s) (hstage : s.stage = .hello)
    (ht : Public honest d t) : Sound honest d s (s.onHello t) := by
  obtain ⟨hnone, hunconfirmed, hkeys⟩ := h.hello hstage
  rw [Session.onHello]
  cases hdecode : HelloPayload.decode t with
  | none => exact h.sound_close _
  | some peer =>
    dsimp only
    cases hverify : verifyHello s.clusterSecret peer with
    | error st => exact h.sound_close _
    | ok _ =>
      have hid := nodeId_of_verifyHello hverify
      have hpublic := public_decode hdecode ht
      dsimp only
      -- The two roles differ in whether the transcript is signed now.
      have hgood : ∀ (confirmed : Bool) d', Fewer d d' → Good honest d'
          { s with peer := some peer, confirmed, stage := .confirm } := by
        intro confirmed d' hd
        refine ⟨h.owner, fun peer' hpeer' => ?_, fun keys hk => ?_, nofun, fun _ => hkeys, nofun,
          nofun⟩
        · obtain rfl := Option.some_inj.mp hpeer'
          exact ⟨hid, hd.public hpublic⟩
        · exact nomatch hkeys.symm.trans hk
      have hadvances : ∀ confirmed : Bool, Advances s
          { s with peer := some peer, confirmed, stage := .confirm } := by
        intro confirmed
        refine ⟨rfl, rfl, rfl, rfl, rfl, fun peer' hpeer' => ?_, fun hc => ?_, fun _ hk => hk⟩
        · exact nomatch hnone.symm.trans hpeer'
        · exact nomatch hunconfirmed.symm.trans hc
      split
      · refine ⟨hadvances true, fun d' hd hcounted => ⟨hgood true d' hd, fun u hu => ?_⟩⟩
        obtain rfl := mem_singleton.mp hu
        exact public_confirm hcounted rfl rfl (hd.public hpublic)
      · refine ⟨hadvances s.confirmed, fun d' hd hcounted => ⟨hgood s.confirmed d' hd,
          fun u hu => ?_⟩⟩
        obtain rfl := mem_singleton.mp hu
        have hown := public_ourHello honest hcounted
        rwa [(hadvances s.confirmed).ourHello] at hown

lemma agree_eq_some {keys : AgreedKeys} (h : s.agree peer = some keys) :
    ∃ y, peer.x25519EphemeralPubkey = .power y ∧ keys = s.keysFor peer y := by
  unfold agree at h
  split at h
  · exact ⟨_, ‹_›, (Option.some_inj.mp h).symm⟩
  · cases h

/-- Behind a CONFIRM that verifies. -/
lemma Good.established (h : Good honest d s) (hstage : s.stage = .confirm)
    (hpeer : s.peer = some peer) (hsigned : ∀ a, honest a → peer.ed25519Pubkey = .pubKey a →
      d.Signed a (s.transcript peer)) (request : Bytes) :
    Sound honest d s (s.established peer request) := by
  have hnone := h.confirm hstage
  unfold Session.established
  cases hagree : s.agree peer with
  | none => exact h.sound_close _
  | some keys =>
    obtain ⟨y, heph, hkeysFor⟩ := agree_eq_some hagree
    have hadvances : ∀ stage, Advances s { s with keys := some keys, stage } := fun stage =>
      ⟨rfl, rfl, rfl, rfl, rfl, fun _ hp => hp, fun hc => hc,
        fun _ hk => nomatch hnone.symm.trans hk⟩
    have hkeys : ∀ keys', some keys = some keys' → ∃ peer y, s.peer = some peer ∧
        peer.x25519EphemeralPubkey = .power y ∧ keys' = s.keysFor peer y := by
      intro keys' hk
      obtain rfl := Option.some_inj.mp hk
      exact ⟨peer, y, hpeer, heph, hkeysFor⟩
    dsimp only
    split_ifs with hself
    · refine ⟨hadvances _, fun d' hd _ => ⟨?_, fun _ ht => nomatch ht⟩⟩
      exact ⟨h.owner, (h.mono hd).peer, hkeys, nofun, nofun, nofun, nofun⟩
    · have hgood : ∀ d', Fewer d d' → Good honest d'
          { s with keys := some keys, stage := .frame } := fun d' hd =>
        ⟨h.owner, (h.mono hd).peer, hkeys, nofun, nofun,
          fun _ => ⟨peer, keys, hpeer, rfl, hself, fun a ha hpub => hd.signed a _
            (hsigned a ha hpub)⟩, nofun⟩
      split
      · refine ⟨hadvances _, fun d' hd hcounted => ⟨hgood d' hd, fun u hu => ?_⟩⟩
        obtain rfl := mem_singleton.mp hu
        exact public_frame hcounted rfl request
      · exact ⟨hadvances _, fun d' hd _ => ⟨hgood d' hd, fun _ ht => nomatch ht⟩⟩

lemma Good.onConfirm (h : Good honest d s) (hstage : s.stage = .confirm)
    (ht : Public honest d t) (request : Bytes) : Sound honest d s (s.onConfirm t request) := by
  unfold Session.onConfirm
  split
  · rename_i peer signature hpeer hdecode
    split_ifs with hverify
    · exact h.sound_close _
    have hverify : verifySignature peer.ed25519Pubkey (s.transcript peer) signature = true := by
      rwa [Bool.not_eq_true', Bool.not_eq_false] at hverify
    have hsigned : ∀ a, honest a → peer.ed25519Pubkey = .pubKey a →
        d.Signed a (s.transcript peer) := fun a ha hkey =>
      signed_of_verify hdecode ht hverify ha hkey
    split
    · exact h.established hstage hpeer hsigned request
    · -- The server signs, and the rest is that of a session that has signed.
      have hconfirmed : Good honest d { s with confirmed := true } :=
        ⟨h.owner, h.peer, h.keys, fun hhello => absurd (hstage.symm.trans hhello) nofun,
          h.confirm, h.agreed, h.opened⟩
      obtain ⟨hadvances, hsound⟩ := hconfirmed.established hstage hpeer hsigned request
      have hfirst : Advances s { s with confirmed := true } :=
        ⟨rfl, rfl, rfl, rfl, rfl, fun _ hp => hp, fun _ => rfl, fun _ hk => hk⟩
      refine ⟨hfirst.trans hadvances, fun d' hd hcounted => ?_⟩
      obtain ⟨hgood, hsent⟩ := hsound d' hd hcounted
      refine ⟨hgood, fun u hu => ?_⟩
      rcases mem_cons.mp hu with rfl | hu
      · have hown := public_confirm hcounted (hadvances.confirmed rfl) (hadvances.peer peer hpeer)
          (hd.public (h.peer peer hpeer).2)
        rw [(hfirst.trans hadvances).owner, (hfirst.trans hadvances).transcript] at hown
        exact hown
      · exact hsent u hu
  · exact h.sound_close _

lemma Good.onFrame (h : Good honest d s) (hstage : s.stage = .frame)
    (ht : Public honest d t) (response : Bytes) : Sound honest d s (s.onFrame t response) := by
  unfold Session.onFrame
  split
  · rename_i keys key nonce plaintext hkeys
    split_ifs with hopens hempty
    · exact h.sound_close _
    · obtain ⟨rfl, -⟩ := hopens
      have hadvances : Advances s { s with stage := .called } :=
        ⟨rfl, rfl, rfl, rfl, rfl, fun _ hp => hp, fun hc => hc, fun _ hk => hk⟩
      have hgood : ∀ d', Fewer d d' → Good honest d' { s with stage := .called } := by
        intro d' hd
        refine ⟨h.owner, (h.mono hd).peer, h.keys, nofun, nofun,
          fun _ => (h.mono hd).agreed (Or.inl hstage), fun _ keys' hkeys' => ?_⟩
        obtain rfl := Option.some_inj.mp (hkeys.symm.trans hkeys')
        exact ht.1.imp hd.public (hd.seals _)
      split
      · exact ⟨hadvances, fun d' hd _ => ⟨hgood d' hd, fun _ hu => nomatch hu⟩⟩
      · refine ⟨hadvances, fun d' hd hcounted => ⟨hgood d' hd, fun u hu => ?_⟩⟩
        obtain rfl := mem_singleton.mp hu
        exact public_frame hcounted hkeys response
    · exact h.sound_close _
  · exact h.sound_close _

/-- **One message to a session.** -/
lemma Good.receive (h : Good honest d s) (ht : Public honest d t)
    (payload : Bytes) : Sound honest d s (s.receive t payload) := by
  have hidle : Sound honest d s (s, []) :=
    ⟨.refl s, fun _ hd _ => ⟨h.mono hd, fun _ hu => nomatch hu⟩⟩
  unfold Session.receive
  split
  · exact h.onHello ‹_› ht
  · exact h.onConfirm ‹_› ht payload
  · exact h.onFrame ‹_› ht payload
  · exact hidle
  · exact hidle

end Session

/-! ## The network -/

namespace HandshakeNet

open Session (Advances Good Public Fewer Counted)

variable {honest : ℕ → Prop} {net : HandshakeNet} {t : HandshakeTerm} {s s' : Session}
  {peer peer' : HelloPayload}

/-- What the honest nodes have done, as their sessions tell. -/
def deeds (net : HandshakeNet) : Deeds Bytes ℕ Ephemeral where
  Signed a m := (∃ bytes, m = .atom bytes) ∨ ∃ s ∈ net.sessions, s.owner = a ∧ s.Signs m
  Seals key := ∃ s ∈ net.sessions, s.SealsWith key

lemma counted_of_mem (h : s ∈ net.sessions) : Counted net.deeds s :=
  ⟨fun _ hm => Or.inr ⟨s, h, rfl, hm⟩, fun _ hkey => ⟨s, h, hkey⟩⟩

/-- Sessions that advance do more. -/
lemma fewer_deeds {net' : HandshakeNet}
    (h : ∀ s ∈ net.sessions, ∃ s' ∈ net'.sessions, Advances s s') : Fewer net.deeds net'.deeds := by
  refine ⟨fun a m hm => ?_, fun key hkey => ?_⟩
  · rcases hm with hatom | ⟨s, hs, rfl, hm⟩
    · exact Or.inl hatom
    · obtain ⟨s', hs', hadvances⟩ := h s hs
      exact Or.inr ⟨s', hs', hadvances.owner, hadvances.signs hm⟩
  · obtain ⟨s, hs, hkey⟩ := hkey
    obtain ⟨s', hs', hadvances⟩ := h s hs
    exact ⟨s', hs', hadvances.sealsWith hkey⟩

/-- What holds of the network. -/
structure Inv (honest : ℕ → Prop) (net : HandshakeNet) : Prop where
  index : ∀ (i : ℕ) s, net.sessions[i]? = some s → s.index = i
  good : ∀ s ∈ net.sessions, Good honest net.deeds s
  sent : ∀ t ∈ net.sent, Public honest net.deeds t

/-- **What the attacker knows is public.** -/
lemma Inv.public (h : Inv honest net) (ht : net.Knows honest t) : Public honest net.deeds t :=
  DolevYao.Derives.publishable h.sent ht

/-- A new session. -/
lemma Inv.join (h : Inv honest net) {owner : ℕ} (howner : honest owner) (role : ChannelSide)
    (p2pPort : UInt16) (clusterSecret : Bytes) {sent : List HandshakeTerm}
    (hsent : ∀ t ∈ sent, t = (net.fresh owner role p2pPort clusterSecret).ourHello.encode ∨
      t ∈ net.sent) :
    Inv honest
      { sessions := net.sessions ++ [net.fresh owner role p2pPort clusterSecret], sent } := by
  set s := net.fresh owner role p2pPort clusterSecret
  set net' : HandshakeNet := { sessions := net.sessions ++ [s], sent }
  have hfewer : Fewer net.deeds net'.deeds := fewer_deeds fun s' hs' =>
    ⟨s', mem_append_left _ hs', .refl s'⟩
  refine ⟨fun i s' hget => ?_, fun s' hs' => ?_, fun t ht => ?_⟩
  · rcases Nat.lt_or_ge i net.sessions.length with hlt | hge
    · exact h.index i s' ((getElem?_append_left hlt).symm.trans hget)
    · rw [getElem?_append_right hge] at hget
      obtain ⟨hi, hs'⟩ := List.getElem?_eq_some_iff.mp hget
      rw [length_singleton] at hi
      rw [← hs', getElem_singleton]
      change net.sessions.length = i
      omega
  · rcases mem_append.mp hs' with hold | hnew
    · exact (h.good s' hold).mono hfewer
    · obtain rfl := mem_singleton.mp hnew
      exact ⟨howner, nofun, nofun, fun _ => ⟨rfl, rfl, rfl⟩, nofun, nofun, nofun⟩
  · rcases hsent t ht with rfl | hold
    · exact Session.public_ourHello honest
        (counted_of_mem (mem_append_right _ mem_cons_self))
    · exact hfewer.public (h.sent t hold)

/-- A message to a session. -/
lemma Inv.deliver (h : Inv honest net) {index : ℕ} (ht : net.Knows honest t) (payload : Bytes)
    (hs : net.sessions[index]? = some s) :
    Inv honest { sessions := net.sessions.set index (s.receive t payload).1
                 sent := (s.receive t payload).2 ++ net.sent } := by
  obtain ⟨hlt, hget⟩ := List.getElem?_eq_some_iff.mp hs
  have hmem : s ∈ net.sessions := hget ▸ getElem_mem hlt
  obtain ⟨hadvances, hsound⟩ := (h.good s hmem).receive (h.public ht) payload
  set net' : HandshakeNet := { sessions := net.sessions.set index (s.receive t payload).1
                               sent := (s.receive t payload).2 ++ net.sent }
  have hmem' : (s.receive t payload).1 ∈ net'.sessions := mem_set hlt _
  have hfewer : Fewer net.deeds net'.deeds := by
    refine fewer_deeds fun s' hs' => ?_
    obtain ⟨i, hi, rfl⟩ := mem_iff_getElem.mp hs'
    by_cases hindex : index = i
    · subst hindex
      rw [hget]
      exact ⟨_, hmem', hadvances⟩
    · refine ⟨_, ?_, .refl _⟩
      have hlength : i < (net.sessions.set index (s.receive t payload).1).length := by
        rwa [length_set]
      have hsame := getElem_set_of_ne hindex (s.receive t payload).1 hlength
      exact hsame ▸ getElem_mem hlength
  obtain ⟨hgood, hsent⟩ := hsound net'.deeds hfewer (counted_of_mem hmem')
  refine ⟨fun i s' hget' => ?_, fun s' hs' => ?_, fun u hu => ?_⟩
  · by_cases hindex : index = i
    · subst hindex
      rw [getElem?_set_self hlt] at hget'
      obtain rfl := Option.some_inj.mp hget'
      exact hadvances.index.trans (h.index index s hs)
    · rw [getElem?_set_ne hindex] at hget'
      exact h.index i s' hget'
  · rcases mem_or_eq_of_mem_set hs' with hold | rfl
    · exact (h.good s' hold).mono hfewer
    · exact hgood
  · rcases mem_append.mp hu with hnew | hold
    · exact hsent u hnew
    · exact hfewer.public (h.sent u hold)

lemma Inv.step (h : Inv honest net) {action : HandshakeAction}
    (hpossible : net.Possible honest action) : Inv honest (net.step action).1 := by
  cases action with
  | dial owner p2pPort clusterSecret =>
    exact h.join hpossible .client p2pPort clusterSecret fun t ht => mem_cons.mp ht
  | accept owner p2pPort clusterSecret =>
    exact h.join hpossible .server p2pPort clusterSecret fun t ht => Or.inr ht
  | deliver index t payload =>
    rw [HandshakeNet.step]
    cases hs : net.sessions[index]? with
    | none => exact h
    | some s => exact h.deliver hpossible payload hs
  | signs owner bytes =>
    refine ⟨h.index, h.good, fun t ht => ?_⟩
    rcases mem_cons.mp ht with rfl | hold
    · exact ⟨Or.inr (Or.inl ⟨bytes, rfl⟩), trivial⟩
    · exact h.sent t hold

/-! ## Agreement -/

lemma encode_injective : Function.Injective HelloPayload.encode := by
  rintro ⟨id, key, eph, sig, port, tag⟩ ⟨id', key', eph', sig', port', tag'⟩ h
  simp only [HelloPayload.encode, Term.pair.injEq, Term.atom.injEq, true_and] at h
  obtain ⟨rfl, rfl, rfl, rfl, hport, rfl⟩ := h
  have hvalue := congrArg leValue hport
  have hlt : ∀ n : UInt16, n.toNat < 256 ^ 2 := UInt16.toNat_lt
  rw [leValue_leBytes, leValue_leBytes, Nat.mod_eq_of_lt (hlt port),
    Nat.mod_eq_of_lt (hlt port')] at hvalue
  rw [UInt16.toNat_inj.mp hvalue]

/-- Sessions that signed the same transcript had the same HELLO payloads. -/
lemma hellos_eq_of_transcript (h : s'.transcript peer' = s.transcript peer) :
    s'.hellos peer' = s.hellos peer := by
  obtain ⟨hclient, hserver⟩ := Term.pair.inj (Term.pair.inj h).2
  exact Prod.ext (encode_injective hclient) (encode_injective hserver)

/-- Two sessions of different nodes with the same HELLO payloads have different roles, and the HELLO
of each is what the other has received. -/
lemma roles_of_hellos (howner : s'.owner ≠ s.owner) (h : s'.hellos peer' = s.hellos peer) :
    s'.role = s.role.peer ∧ s'.ourHello = peer ∧ peer' = s.ourHello := by
  have hne : s'.ourHello ≠ s.ourHello := fun heq =>
    howner (Term.pubKey.inj (congrArg HelloPayload.ed25519Pubkey heq))
  unfold Session.hellos at h
  cases hrole' : s'.role <;> cases hrole : s.role <;> rw [hrole', hrole] at h <;>
    obtain ⟨hfst, hsnd⟩ := Prod.mk.inj h
  · exact absurd hfst hne
  · exact ⟨rfl, hfst, hsnd⟩
  · exact ⟨rfl, hsnd, hfst⟩
  · exact absurd hsnd hne

/-- The keys of an exponent that the attacker does not have are not public. -/
lemma not_public_keysFor (honest : ℕ → Prop) (d : Deeds Bytes ℕ Ephemeral) (s : Session)
    (peer : HelloPayload) (j : ℕ) :
    ¬ Public honest d (s.keysFor peer (.session j)).sendKey ∧
      ¬ Public honest d (s.keysFor peer (.session j)).recvKey := by
  have hshared : ∀ i j, ¬ Public honest d (.shared s(Ephemeral.session i, .session j)) := by
    rintro i j ⟨x, hx, hown⟩
    rcases Sym2.mem_iff.mp hx with rfl | rfl
    · exact hown
    · exact hown
  unfold Session.keysFor
  split
  · exact ⟨hshared s.index j, hshared s.index j⟩
  · exact ⟨hshared j s.index, hshared j s.index⟩

/-- A session that sends with the key another one receives with is of the other role, and they share
their exponents. -/
lemma eq_of_sendKey_eq_recvKey {y y' : Ephemeral}
    (h : (s'.keysFor peer' y').sendKey = (s.keysFor peer y).recvKey) :
    s'.role = s.role.peer ∧ s(s'.ephemeral, y') = s(s.ephemeral, y) := by
  have hlabels : text "desentry-c2s" ≠ text "desentry-s2c" := by decide
  unfold Session.keysFor at h
  cases hrole' : s'.role <;> cases hrole : s.role <;> rw [hrole', hrole] at h <;>
    obtain ⟨hshared, -, hlabel⟩ := Term.kdf.inj h
  · exact absurd hlabel hlabels
  · exact ⟨rfl, (Term.shared.inj hshared).trans Sym2.eq_swap⟩
  · exact ⟨rfl, Sym2.eq_swap.trans (Term.shared.inj hshared)⟩
  · exact absurd hlabel.symm hlabels

/-- Both sides derive the same keys. -/
lemma keysFor_mirrored (hrole : s'.role = s.role.peer) : s'.keysFor s.ourHello s.ephemeral =
      ⟨(s.keysFor s'.ourHello s'.ephemeral).recvKey,
        (s.keysFor s'.ourHello s'.ephemeral).sendKey⟩ := by
  unfold Session.keysFor
  rw [hrole]
  cases s.role with
  | client => rfl
  | server => rfl

/-- The second session has run the other role of the handshake of the first, on the same HELLO
payloads, and they have the same keys, which the attacker does not know. -/
structure Matched (honest : ℕ → Prop) (net : HandshakeNet) (s s' : Session) : Prop where
  role : s'.role = s.role.peer
  hellos : ∃ peer peer', s.peer = some peer ∧ s'.peer = some peer' ∧
    s'.hellos peer' = s.hellos peer
  keys : ∃ keys, s.keys = some keys ∧ s'.keys = some ⟨keys.recvKey, keys.sendKey⟩ ∧
    ¬ net.Knows honest keys.sendKey ∧ ¬ net.Knows honest keys.recvKey

lemma Inv.eq_of_index (h : Inv honest net) (hs : s ∈ net.sessions)
    (hs' : s' ∈ net.sessions) (heq : s'.index = s.index) : s' = s := by
  obtain ⟨i, hi, rfl⟩ := mem_iff_getElem.mp hs
  obtain ⟨j, hj, rfl⟩ := mem_iff_getElem.mp hs'
  have hindex := h.index i _ (getElem?_eq_getElem hi)
  have hindex' := h.index j _ (getElem?_eq_getElem hj)
  obtain rfl : j = i := hindex'.symm.trans (heq.trans hindex)
  rfl

/-- A session whose callback was invoked for another honest node has a match at that node. -/
lemma Inv.matched (h : Inv honest net) (hs : s ∈ net.sessions)
    (hcalled : s.stage = .called) (hpeer : s.peer = some peer) {a : ℕ}
    (ha : honest a) (hkey : peer.ed25519Pubkey = .pubKey a) (hne : a ≠ s.owner) :
    ∃ s' ∈ net.sessions, s'.owner = a ∧ Matched honest net s s' := by
  have hgood := h.good s hs
  obtain ⟨peer₀, keys, hpeer₀, hkeys, -, hsigned⟩ := hgood.agreed (Or.inr hcalled)
  obtain rfl := Option.some_inj.mp (hpeer₀.symm.trans hpeer)
  -- The peer has signed the transcript in one of its sessions.
  obtain ⟨bytes, hatom⟩ | ⟨s', hs', rfl, hsigns⟩ := hsigned a ha hkey
  · cases hatom
  obtain hpower | ⟨-, peer', hpeer', htranscript⟩ := hsigns
  · cases hpower
  have hhellos := hellos_eq_of_transcript htranscript.symm
  obtain ⟨hrole, rfl, rfl⟩ := roles_of_hellos hne hhellos
  -- So the ephemeral key is that of this session, and the keys are secret.
  obtain ⟨peer₁, y, hpeer₁, heph, rfl⟩ := hgood.keys keys hkeys
  obtain rfl := Option.some_inj.mp (hpeer₁.symm.trans hpeer)
  obtain rfl : y = s'.ephemeral := (Term.power.inj heph).symm
  obtain ⟨hsend, hrecv⟩ := not_public_keysFor honest net.deeds s s'.ourHello s'.index
  -- The frame that has opened was sealed by a session with the same exponents.
  obtain ⟨s₂, hs₂, keys₂, hkeys₂, hseal⟩ :=
    (hgood.opened hcalled _ hkeys).resolve_left hrecv
  obtain ⟨peer₂, y₂, hpeer₂, -, rfl⟩ := (h.good s₂ hs₂).keys keys₂ hkeys₂
  obtain ⟨hrole₂, hexponents⟩ := eq_of_sendKey_eq_recvKey hseal
  have hmem : s₂.ephemeral = s.ephemeral ∨ s₂.ephemeral = s'.ephemeral :=
    Sym2.mem_iff.mp (hexponents ▸ Sym2.mem_mk_left _ _)
  have hsame : s₂ = s' := by
    rcases hmem with heq | heq
    · have hself := h.eq_of_index hs hs₂ (Ephemeral.session.inj heq)
      rw [hself] at hrole₂
      cases hself : s.role <;> rw [hself] at hrole₂ <;> cases hrole₂
    · exact h.eq_of_index hs' hs₂ (Ephemeral.session.inj heq)
  subst hsame
  obtain rfl := Option.some_inj.mp (hpeer₂.symm.trans hpeer')
  obtain ⟨peer₃, y₃, hpeer₃, heph₃, hkeys₃⟩ := (h.good s₂ hs₂).keys _ hkeys₂
  obtain rfl := Option.some_inj.mp (hpeer₃.symm.trans hpeer₂)
  obtain rfl : y₃ = s.ephemeral := (Term.power.inj heph₃).symm
  refine ⟨s₂, hs₂, rfl, hrole, ⟨_, _, hpeer, hpeer₂, hhellos⟩, _, hkeys, ?_, fun hknows => ?_,
    fun hknows => ?_⟩
  · rw [hkeys₂, hkeys₃, keysFor_mirrored hrole]
  · exact hsend (h.public hknows)
  · exact hrecv (h.public hknows)

/-- **Agreement**: whenever the handshake callback is invoked for a node id and a public key, the
key derives the node id, which is not that of the node itself.  If the node id is that of an honest
node, then that node has run the other role on the same two HELLO payloads, and it has the mirrored
keys, which the attacker does not know. -/
theorem handshake_agreement (honest : ℕ → Prop) {actions : List HandshakeAction}
    (h : Runs.Guarded step (fun net => net.Possible honest) {} actions) :
    let net := Runs.final step {} actions
    ∀ s ∈ net.sessions, ∀ nodeId pubkey, s.callback = some (nodeId, pubkey) →
      nodeIdOf pubkey = nodeId ∧ nodeId ≠ nodeIdOf (.pubKey s.owner) ∧
        ∀ a, honest a → nodeId = nodeIdOf (.pubKey a) →
          ∃ s' ∈ net.sessions, s'.owner = a ∧ Matched honest net s s' := by
  intro net s hs nodeId pubkey hcallback
  have hinv : Inv honest net :=
    Runs.final_invariant (fun net action hpossible hinv => hinv.step hpossible)
      ⟨nofun, nofun, nofun⟩ h
  rw [Session.callback] at hcallback
  split_ifs at hcallback with hcalled
  obtain ⟨peer, hpeer, heq⟩ := Option.map_eq_some_iff.mp hcallback
  obtain ⟨rfl, rfl⟩ := Prod.mk.inj heq
  obtain ⟨hid, -⟩ := (hinv.good s hs).peer peer hpeer
  obtain ⟨peer₀, keys, hpeer₀, -, hself, -⟩ := (hinv.good s hs).agreed (Or.inr hcalled)
  obtain rfl := Option.some_inj.mp (hpeer₀.symm.trans hpeer)
  refine ⟨hid, hself, fun a ha hnode => ?_⟩
  have hkey : peer₀.ed25519Pubkey = .pubKey a := Term.hash.inj (hid.trans hnode)
  refine hinv.matched hs hcalled hpeer ha hkey fun hown => hself ?_
  rw [hnode, hown]

/-! ## One match, and for ever -/

/-- Each of two matched sessions has the HELLO of the other. -/
lemma Matched.peers (h : Matched honest net s s') :
    s.peer = some s'.ourHello ∧ s'.peer = some s.ourHello := by
  obtain ⟨peer, peer', hpeer, hpeer', hhellos⟩ := h.hellos
  rw [hpeer, hpeer']
  unfold Session.hellos at hhellos
  rw [h.role] at hhellos
  cases hrole : s.role <;> rw [hrole] at hhellos <;> obtain ⟨hfst, hsnd⟩ := Prod.mk.inj hhellos
  · exact ⟨congrArg some hsnd.symm, congrArg some hfst⟩
  · exact ⟨congrArg some hfst.symm, congrArg some hsnd⟩

section Possible

variable {actions : List HandshakeAction}
  (h : Runs.Guarded step (fun net => net.Possible honest) {} actions)

include h

lemma inv_final : Inv honest (Runs.final step {} actions) :=
  Runs.final_invariant (fun _ _ hpossible hinv => hinv.step hpossible) ⟨nofun, nofun, nofun⟩ h

/-- **The agreement is injective**: in every run, a session matches at most one session and is
matched by at most one, so that no message of a handshake counts for a second one. -/
theorem matches_one_to_one (s₁ s₂ s : Session) :
    let net := Runs.final step {} actions
    s₁ ∈ net.sessions → s₂ ∈ net.sessions →
      (Matched honest net s₁ s ∧ Matched honest net s₂ s ∨
        Matched honest net s s₁ ∧ Matched honest net s s₂) → s₁ = s₂ := by
  intro net hs₁ hs₂ hmatched
  have hhello : s₁.ourHello = s₂.ourHello := by
    rcases hmatched with ⟨h₁, h₂⟩ | ⟨h₁, h₂⟩
    · exact Option.some_inj.mp (h₁.peers.2.symm.trans h₂.peers.2)
    · exact Option.some_inj.mp (h₁.peers.1.symm.trans h₂.peers.1)
  -- A session has its ephemeral key for itself.
  have hpower := Term.power.inj (congrArg HelloPayload.x25519EphemeralPubkey hhello)
  exact (inv_final h).eq_of_index hs₂ hs₁ (Ephemeral.session.inj hpower)

/-- **Forward secrecy**: after every run, the attacker does not know the keys of a session whose
callback was invoked for another honest node, even with the private keys of all nodes. -/
theorem forward_secrecy (s : Session) :
    let net := Runs.final step {} actions
    s ∈ net.sessions → s.stage = .called → ∀ peer a, s.peer = some peer → honest a →
      peer.ed25519Pubkey = .pubKey a → a ≠ s.owner → ∃ keys, s.keys = some keys ∧
        ¬ net.Knows (fun _ => False) keys.sendKey ∧ ¬ net.Knows (fun _ => False) keys.recvKey := by
  intro net hs hcalled peer a hpeer ha hkey hne
  have hinv : Inv honest net := inv_final h
  have hpublic : ∀ t, net.Knows (fun _ => False) t → Public (fun _ => False) net.deeds t :=
    fun t => DolevYao.Derives.publishable fun u hu =>
      (hinv.sent u hu).mono (fun _ _ => id) (fun _ _ => id) fun _ => id
  obtain ⟨s', -, -, hmatched⟩ := hinv.matched hs hcalled hpeer ha hkey hne
  obtain ⟨keys, hkeys, -⟩ := hmatched.keys
  obtain ⟨peer, y, hpeer, heph, rfl⟩ := (hinv.good s hs).keys keys hkeys
  obtain rfl := Option.some_inj.mp (hmatched.peers.1.symm.trans hpeer)
  -- Both exponents belong to sessions.
  obtain rfl : y = s'.ephemeral := (Term.power.inj heph).symm
  obtain ⟨hsend, hrecv⟩ := not_public_keysFor (fun _ => False) net.deeds s s'.ourHello s'.index
  exact ⟨_, hkeys, fun hknows => hsend (hpublic _ hknows), fun hknows => hrecv (hpublic _ hknows)⟩

end Possible

/-! ## A sample -/

/-- A node dials. -/
def sampleClient : Session where
  owner := 1
  role := .client
  index := 0
  p2pPort := 7000
  clusterSecret := []

/-- Another node accepts. -/
def sampleServer : Session where
  owner := 2
  role := .server
  index := 1
  p2pPort := 7001
  clusterSecret := []

/-- The keys of the client. -/
def sampleAgreed : AgreedKeys := sampleClient.keysFor sampleServer.ourHello sampleServer.ephemeral

/-- The CONFIRM of a node, for the transcript of the two. -/
def sampleConfirm (owner : ℕ) : HandshakeTerm :=
  encodeConfirm (.sign owner (sampleClient.transcript sampleServer.ourHello))

/-- The network delivers every message, and both callbacks are invoked. -/
def sampleHandshake : List HandshakeAction :=
  [.dial 1 7000 [], .accept 2 7001 [], .deliver 1 sampleClient.ourHello.encode [],
    .deliver 0 sampleServer.ourHello.encode [], .deliver 1 (sampleConfirm 1) [],
    .deliver 0 (sampleConfirm 2) [5], .deliver 1 (.enc sampleAgreed.sendKey 0 (.atom [5])) [6],
    .deliver 0 (.enc sampleAgreed.recvKey 0 (.atom [6])) []]

/-- Both nodes are honest, and the session of the server has a match. -/
theorem handshake_agreement_sample :
    (Runs.final step {} sampleHandshake).sessions.map (fun s => s.stage) = [.called, .called] ∧
    ∀ s ∈ (Runs.final step {} sampleHandshake).sessions, ∀ nodeId pubkey,
      s.callback = some (nodeId, pubkey) → nodeId ≠ nodeIdOf (.pubKey s.owner) ∧
        ∀ a, a = 1 ∨ a = 2 → nodeId = nodeIdOf (.pubKey a) →
          ∃ s' ∈ (Runs.final step {} sampleHandshake).sessions, s'.owner = a ∧
            Matched (fun a => a = 1 ∨ a = 2) (Runs.final step {} sampleHandshake) s s' := by
  refine ⟨by decide +kernel, fun s hs nodeId pubkey hcallback => ?_⟩
  refine (handshake_agreement (fun a => a = 1 ∨ a = 2) ?_ s hs nodeId pubkey hcallback).2
  exact ⟨Or.inl rfl, Or.inr rfl, .seen (by decide +kernel), .seen (by decide +kernel),
    .seen (by decide +kernel), .seen (by decide +kernel), .seen (by decide +kernel),
    .seen (by decide +kernel), trivial⟩

lemma sampleHandshake_possible : Runs.Guarded step
    (fun net => net.Possible fun a => a = 1 ∨ a = 2) {} sampleHandshake :=
  ⟨Or.inl rfl, Or.inr rfl, .seen (by decide +kernel), .seen (by decide +kernel),
    .seen (by decide +kernel), .seen (by decide +kernel), .seen (by decide +kernel),
    .seen (by decide +kernel), trivial⟩

/-- The session of the client in the end. -/
def sampleCalled : Session :=
  { sampleClient with
    peer := some sampleServer.ourHello, confirmed := true, keys := some sampleAgreed,
    stage := .called }

lemma sampleCalled_mem : sampleCalled ∈ (Runs.final step {} sampleHandshake).sessions :=
  mem_of_getElem? (i := 0) (by rfl)

theorem matches_one_to_one_sample : let net := Runs.final step {} sampleHandshake
    ∃ s', Matched (fun a => a = 1 ∨ a = 2) net sampleCalled s' ∧ ∀ s ∈ net.sessions,
      Matched (fun a => a = 1 ∨ a = 2) net s s' → sampleCalled = s := by
  obtain ⟨s', -, -, hmatched⟩ := (inv_final sampleHandshake_possible).matched sampleCalled_mem rfl
    rfl (Or.inr rfl) rfl (by decide)
  exact ⟨s', hmatched, fun s hs h => matches_one_to_one sampleHandshake_possible _ s s'
    sampleCalled_mem hs (Or.inl ⟨hmatched, h⟩)⟩

theorem forward_secrecy_sample :
    ¬ (Runs.final step {} sampleHandshake).Knows (fun _ => False) sampleAgreed.sendKey := by
  obtain ⟨keys, hkeys, hsend, -⟩ := forward_secrecy sampleHandshake_possible sampleCalled
    sampleCalled_mem rfl _ 2 rfl (Or.inr rfl) rfl (by decide)
  obtain rfl := Option.some_inj.mp hkeys
  exact hsend

end HandshakeNet

end DeSentry
