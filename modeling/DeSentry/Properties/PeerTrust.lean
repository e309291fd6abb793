import DeSentry.Construction.Net.PeerTable
import DeSentry.Framework.Runs

/-!
# What datagrams can do to the peer table

A handshake proves a peer, and `Upsert` lets a beacon only fill what is missing in the entry of a
proven peer.  But that rule looks for the source `kDiscovery`, and the callback of `MdnsDiscovery`
gives `kMdns`.  An mDNS datagram therefore overwrites the address of a proven peer.

An mDNS datagram also makes entries without a key.  If the table was full when the peer made its
handshake, `MarkHandshakeProven` has stored nothing, and the `Upsert` of `HandleRequest` marks such
an entry as proven.

`peer_trust_iff` says that the table is trusted after every step of a run exactly if no step is one
of these two.
-/

namespace DeSentry

open ByteCodec AssocMap

/-! ## Node ids -/

lemma isHex_of_mem_hexEncode {bytes : Bytes} {d : UInt8} (h : d ∈ hexEncode bytes) :
    d < 58 ∨ 97 ≤ d ∧ d < 103 := by
  have hdigit : ∀ n : UInt8, n < 16 → hexDigit n < 58 ∨ 97 ≤ hexDigit n ∧ hexDigit n < 103 := by
    decide +kernel
  obtain ⟨b, -, hb⟩ := List.mem_flatMap.mp h
  have hhigh : b / 16 < 16 := by
    rw [UInt8.lt_iff_toNat_lt, UInt8.toNat_div]
    have := b.toNat_lt
    exact Nat.div_lt_of_lt_mul (by simpa using this)
  have hlow : b % 16 < 16 := UInt8.mod_lt _ (by decide)
  rcases List.mem_cons.mp hb with rfl | hb
  · exact hdigit _ hhigh
  · rw [List.mem_singleton.mp hb]
    exact hdigit _ hlow

/-- The id of a placeholder is not derived from a key: it is not hexadecimal. -/
lemma deriveNodeId_ne_placeholder (c : Crypto) (pubkey : Bytes) {nodeId : Bytes}
    (h : (text "bootstrap#").isPrefixOf nodeId = true) : deriveNodeId c pubkey ≠ nodeId := by
  rintro rfl
  have hmem : (111 : UInt8) ∈ deriveNodeId c pubkey :=
    (List.isPrefixOf_iff_prefix.mp h).subset (by decide)
  rcases isHex_of_mem_hexEncode (List.mem_of_mem_take hmem) with hlt | ⟨-, hlt⟩
  · exact absurd hlt (by decide)
  · exact absurd hlt (by decide)

/-! ## Entries -/

namespace PeerEntry

variable {c : Crypto} {e info : PeerEntry} {source : PeerSource}

/-- A key that is known, or the key of a proven peer, derives the node id. -/
def Bound (c : Crypto) (e : PeerEntry) : Prop :=
  e.ed25519Pubkey ≠ [] ∨ e.handshakeProven = true → deriveNodeId c e.ed25519Pubkey = e.nodeId

/-- What a datagram may leave of a proven entry. -/
structure Unharmed (e e' : PeerEntry) : Prop where
  pubkey : e'.ed25519Pubkey = e.ed25519Pubkey
  host : e.host ≠ [] → e'.host = e.host
  p2pPort : e.p2pPort ≠ 0 → e'.p2pPort = e.p2pPort
  apiPort : e.apiPort ≠ 0 → e'.apiPort = e.apiPort
  supervisor : e'.isSupervisor = e.isSupervisor

lemma Unharmed.refl (e : PeerEntry) : Unharmed e e :=
  ⟨rfl, fun _ => rfl, fun _ => rfl, fun _ => rfl, rfl⟩

lemma unharmed_fillMissing (e info : PeerEntry) : Unharmed e (e.fillMissing info) :=
  ⟨rfl, fun h => if_neg fun hboth => h hboth.1, fun h => if_neg fun hboth => h hboth.1,
    fun h => if_neg fun hboth => h hboth.1, rfl⟩

/-- Two entries without a key are not made a proven one, unless the node id is that of no key. -/
def Keyed (c : Crypto) (e info : PeerEntry) : Prop :=
  e.ed25519Pubkey = [] → info.ed25519Pubkey = [] → deriveNodeId c [] = info.nodeId

lemma Bound.fillMissing (h : e.Bound c) (info : PeerEntry) : (e.fillMissing info).Bound c := h

lemma Bound.fresh (h : info.Bound c) (source : PeerSource) : (info.fresh source).Bound c := by
  rw [PeerEntry.fresh]
  split_ifs
  · exact fun hany => h (hany.imp_right fun hfalse => absurd hfalse Bool.false_ne_true)
  · exact h

lemma fresh_nodeId : (info.fresh source).nodeId = info.nodeId := by
  rw [PeerEntry.fresh]
  split_ifs <;> rfl

lemma Bound.overwrite (h : e.Bound c) (hinfo : info.Bound c) (hid : e.nodeId = info.nodeId)
    (hkeyed : source = .kHandshake → Keyed c e info) : (e.overwrite info source).Bound c := by
  intro hany
  change deriveNodeId c (if info.ed25519Pubkey ≠ [] then info.ed25519Pubkey
    else e.ed25519Pubkey) = e.nodeId
  by_cases hkey : info.ed25519Pubkey = []
  · rw [if_neg fun hne => hne hkey]
    by_cases hown : e.ed25519Pubkey = []
    · by_cases hsource : source = .kHandshake
      · rw [hown, hid]
        exact hkeyed hsource hown hkey
      · refine h (Or.inr ?_)
        rcases hany with hne | hproven
        · refine absurd ?_ hne
          change (if info.ed25519Pubkey ≠ [] then info.ed25519Pubkey else e.ed25519Pubkey) = []
          rw [if_neg fun hne => hne hkey, hown]
        · change (if source = .kHandshake then true else e.handshakeProven) = true at hproven
          rwa [if_neg hsource] at hproven
    · exact h (Or.inl hown)
  · rw [if_pos hkey, hid]
    exact hinfo (Or.inl hkey)

/-- A placeholder has no key and is not proven. -/
lemma Bound.placeholder (h : e.Bound c) (hid : (text "bootstrap#").isPrefixOf e.nodeId = true) :
    e.ed25519Pubkey = [] ∧ e.handshakeProven = false := by
  have hnot : ¬ (e.ed25519Pubkey ≠ [] ∨ e.handshakeProven = true) := fun hany =>
    deriveNodeId_ne_placeholder c _ hid (h hany)
  obtain ⟨hkey, hproven⟩ := not_or.mp hnot
  exact ⟨not_not.mp hkey, Bool.eq_false_iff.mpr hproven⟩

lemma bound_of_unknown (hkey : e.ed25519Pubkey = []) (hproven : e.handshakeProven = false) :
    e.Bound c := by
  rintro (hne | htrue)
  · exact absurd hkey hne
  · exact absurd htrue (by rw [hproven]; exact Bool.false_ne_true)

end PeerEntry

/-! ## The table -/

namespace PeerTable

variable {c : Crypto} {t : PeerTable} {order : MapOrder (Bytes × PeerEntry)} {info e : PeerEntry}
  {source : PeerSource} {nodeId : Bytes}

/-- Every entry is that of its node id, and its key is bound to it. -/
def Sound (c : Crypto) (t : PeerTable) : Prop :=
  ∀ nodeId e, t.get nodeId = some e → e.nodeId = nodeId ∧ e.Bound c

lemma get_insert (t : PeerTable) (nodeId : Bytes) (e : PeerEntry) (k : Bytes) :
    (t.insert nodeId e).get k = if k = nodeId then some e else t.get k :=
  get_set ..

lemma get_erase (nodeId k : Bytes) :
    (t.erase nodeId).get k = if k = nodeId then none else t.get k :=
  get_filter_ne ..

lemma Sound.insert (h : Sound c t) (hid : e.nodeId = nodeId) (hbound : e.Bound c) :
    Sound c (t.insert nodeId e) := by
  intro k e' hget
  rw [get_insert] at hget
  split_ifs at hget with hk
  · obtain rfl := Option.some_inj.mp hget
    exact ⟨hid.trans hk.symm, hbound⟩
  · exact h k e' hget

lemma Sound.erase (h : Sound c t) (nodeId : Bytes) : Sound c (t.erase nodeId) := by
  intro k e hget
  rw [get_erase] at hget
  split_ifs at hget
  exact h k e hget

/-- What `Upsert` makes of an entry it finds. -/
def merged (e info : PeerEntry) (source : PeerSource) : PeerEntry :=
  if e.handshakeProven ∧ source = .kDiscovery then e.fillMissing info else e.overwrite info source

lemma upsert_of_some (h : t.get info.nodeId = some e) :
    t.upsert order info source = t.insert info.nodeId (merged e info source) := by
  rw [upsert, h, merged]
  dsimp only
  split_ifs <;> rfl

lemma get_of_victim {nowMs : Int64} (h : t.victim order nowMs = some nodeId) :
    ∃ e, t.get nodeId = some e := by
  obtain ⟨entry, hfind, rfl⟩ := Option.map_eq_some_iff.mp h
  have hmem : entry ∈ t.peers :=
    (order.2 t.peers).mem_iff.mp (List.mem_of_find?_eq_some hfind)
  refine Option.ne_none_iff_exists'.mp fun hnone => ?_
  exact get_eq_none_iff.mp hnone entry hmem rfl

/-- An unknown peer is refused, or it is added to a table with room, after an eviction perhaps. -/
lemma upsert_of_none (h : t.get info.nodeId = none) (order : MapOrder (Bytes × PeerEntry))
    (source : PeerSource) :
    t.upsert order info source = t ∨
      ∃ t' : PeerTable, (t' = t ∨ ∃ nodeId, t' = t.erase nodeId) ∧
        (t.peers.length ≤ kMaxPeers → t'.peers.length < kMaxPeers) ∧
        t.upsert order info source = t'.insert info.nodeId (info.fresh source) := by
  rw [upsert, h]
  split_ifs with hfull
  · cases hvictim : t.victim order info.lastSeenMs with
    | none => exact Or.inl rfl
    | some nodeId =>
      obtain ⟨e, he⟩ := get_of_victim hvictim
      exact Or.inr ⟨_, Or.inr ⟨nodeId, rfl⟩,
        fun hle => lt_of_lt_of_le (length_filter_ne_lt he) hle, rfl⟩
  · exact Or.inr ⟨t, Or.inl rfl, fun _ => Nat.lt_of_not_le hfull, rfl⟩

lemma Sound.upsert (h : Sound c t) (hinfo : info.Bound c)
    (hkeyed : source = .kHandshake → ∀ e, t.get info.nodeId = some e → e.Keyed c info) :
    Sound c (t.upsert order info source) := by
  cases hget : t.get info.nodeId with
  | none =>
    rcases upsert_of_none hget order source with heq | ⟨t', ht', -, heq⟩
    · rw [heq]
      exact h
    · rw [heq]
      have hsound : Sound c t' := by
        rcases ht' with rfl | ⟨nodeId, rfl⟩
        · exact h
        · exact h.erase nodeId
      exact hsound.insert PeerEntry.fresh_nodeId (hinfo.fresh source)
  | some e =>
    obtain ⟨hid, hbound⟩ := h _ _ hget
    rw [upsert_of_some hget, merged]
    split_ifs
    · exact h.insert hid (hbound.fillMissing info)
    · exact h.insert hid (hbound.overwrite hinfo hid fun hsource => hkeyed hsource e hget)

lemma length_upsert (h : t.peers.length ≤ kMaxPeers) :
    (t.upsert order info source).peers.length ≤ kMaxPeers := by
  cases hget : t.get info.nodeId with
  | none =>
    rcases upsert_of_none hget order source with heq | ⟨t', -, hroom, heq⟩
    · rw [heq]
      exact h
    · rw [heq]
      exact (length_set_le ..).trans (hroom h)
  | some e =>
    rw [upsert_of_some hget]
    exact (length_set_of_get hget).trans h

/-- An entry that was there and still is, is the same or was merged. -/
lemma get_upsert_cases {k : Bytes} {e' : PeerEntry} (hget : t.get k = some e)
    (hget' : (t.upsert order info source).get k = some e') :
    e' = e ∨ k = info.nodeId ∧ e' = merged e info source := by
  by_cases hk : k = info.nodeId
  · subst hk
    rw [upsert_of_some hget, get_insert, if_pos rfl] at hget'
    exact Or.inr ⟨rfl, (Option.some_inj.mp hget').symm⟩
  have hsame : ∀ t' : PeerTable, (t' = t ∨ ∃ nodeId, t' = t.erase nodeId) →
      t'.get k = some e' → e' = e := by
    rintro t' (rfl | ⟨nodeId, rfl⟩) ht'
    · exact Option.some_inj.mp (ht'.symm.trans hget)
    · rw [get_erase] at ht'
      split_ifs at ht'
      exact Option.some_inj.mp (ht'.symm.trans hget)
  refine Or.inl ?_
  cases hinfo : t.get info.nodeId with
  | none =>
    rcases upsert_of_none hinfo order source with heq | ⟨t', ht', -, heq⟩
    · exact hsame t (Or.inl rfl) (heq ▸ hget')
    · rw [heq, get_insert, if_neg hk] at hget'
      exact hsame t' ht' hget'
  | some e₀ =>
    rw [upsert_of_some hinfo, get_insert, if_neg hk] at hget'
    exact hsame t (Or.inl rfl) hget'

/-! ### The other calls -/

lemma Sound.markHandshakeProven (h : Sound c t) (nowMs : Int64) {pubkey : Bytes} (host : Bytes)
    (p2pPort : UInt16) (hderive : deriveNodeId c pubkey = nodeId) :
    Sound c (t.markHandshakeProven nowMs nodeId pubkey host p2pPort) := by
  rw [PeerTable.markHandshakeProven]
  cases hget : t.get nodeId with
  | none =>
    dsimp only
    split_ifs
    · exact h
    · exact h.insert rfl fun _ => hderive
  | some e =>
    obtain ⟨hid, -⟩ := h _ _ hget
    exact h.insert hid fun _ => hderive.trans hid.symm

lemma length_markHandshakeProven (h : t.peers.length ≤ kMaxPeers) (nowMs : Int64)
    (nodeId pubkey host : Bytes) (p2pPort : UInt16) :
    (t.markHandshakeProven nowMs nodeId pubkey host p2pPort).peers.length ≤ kMaxPeers := by
  rw [PeerTable.markHandshakeProven]
  cases hget : t.get nodeId with
  | none =>
    dsimp only
    split_ifs with hfull
    · exact h
    · exact (length_set_le ..).trans (Nat.lt_of_not_le hfull)
  | some e => exact (length_set_of_get hget).trans h

lemma Sound.adoptIdentity (h : Sound c t) (oldId realId : Bytes) :
    Sound c (t.adoptIdentity oldId realId).2 := by
  rw [PeerTable.adoptIdentity]
  split_ifs with hrefused
  · exact h
  have hplaceholder : (text "bootstrap#").isPrefixOf oldId = true := by
    by_contra hnot
    exact hrefused (Or.inl (Bool.eq_false_iff.mpr hnot))
  cases hdrop : t.get oldId with
  | none => exact h
  | some drop =>
    obtain ⟨hdropId, hdropBound⟩ := h _ _ hdrop
    obtain ⟨hkey, hproven⟩ := hdropBound.placeholder (hdropId ▸ hplaceholder)
    cases hkeep : t.get realId with
    | none => exact (h.erase oldId).insert rfl (PeerEntry.bound_of_unknown hkey hproven)
    | some keep =>
      obtain ⟨hkeepId, hkeepBound⟩ := h _ _ hkeep
      have hsame : (if keep.ed25519Pubkey = [] then drop.ed25519Pubkey
          else keep.ed25519Pubkey) = keep.ed25519Pubkey := by
        split_ifs with hempty
        · rw [hkey, hempty]
        · rfl
      refine (h.erase oldId).insert hkeepId ?_
      rw [hsame]
      exact hkeepBound

lemma length_adoptIdentity (h : t.peers.length ≤ kMaxPeers) (oldId realId : Bytes) :
    (t.adoptIdentity oldId realId).2.peers.length ≤ kMaxPeers := by
  rw [PeerTable.adoptIdentity]
  split_ifs
  · exact h
  cases hdrop : t.get oldId with
  | none => exact h
  | some drop =>
    have hroom : (t.erase oldId).peers.length < t.peers.length :=
      length_filter_ne_lt hdrop
    cases t.get realId with
    | none => exact (length_set_le ..).trans (hroom.trans_le h)
    | some keep => exact (length_set_le ..).trans (hroom.trans_le h)

/-- A change of an entry that leaves its node id, its key and its mark. -/
lemma Sound.update (h : Sound c t) {e' : PeerEntry} (hget : t.get nodeId = some e)
    (hid : e'.nodeId = e.nodeId) (hbound : e.Bound c → e'.Bound c) :
    Sound c (t.insert nodeId e') :=
  h.insert (hid.trans (h _ _ hget).1) (hbound (h _ _ hget).2)

lemma Sound.recordProbe (h : Sound c t) (nodeId : Bytes) (successRate : Double) :
    Sound c (t.recordProbe nodeId successRate) := by
  rw [PeerTable.recordProbe]
  cases hget : t.get nodeId with
  | none => exact h
  | some e => exact h.update hget rfl id

lemma length_recordProbe (h : t.peers.length ≤ kMaxPeers) (nodeId : Bytes)
    (successRate : Double) : (t.recordProbe nodeId successRate).peers.length ≤ kMaxPeers := by
  rw [PeerTable.recordProbe]
  cases hget : t.get nodeId with
  | none => exact h
  | some e => exact (length_set_of_get hget).trans h

lemma Sound.setState (h : Sound c t) (nodeId : Bytes) (state : NodeLifecycleState) :
    Sound c (t.setState nodeId state) := by
  rw [PeerTable.setState]
  cases hget : t.get nodeId with
  | none => exact h
  | some e =>
    dsimp only
    split_ifs
    · exact h.update hget rfl id
    · exact h

lemma length_setState (h : t.peers.length ≤ kMaxPeers) (nodeId : Bytes)
    (state : NodeLifecycleState) : (t.setState nodeId state).peers.length ≤ kMaxPeers := by
  rw [PeerTable.setState]
  cases hget : t.get nodeId with
  | none => exact h
  | some e =>
    dsimp only
    split_ifs
    · exact (length_set_of_get hget).trans h
    · exact h

end PeerTable

/-! ## Steps -/

/-- Anyone can send what the step receives. -/
def PeerEvent.isDatagram : PeerEvent → Bool
  | .beacon _ _ _ _ => true
  | .mdns _ _ _ _ _ => true
  | _ => false

namespace PeerProcess

open PeerTable (kMaxPeers)

variable {c : Crypto} {p : PeerProcess}

/-- The table after a step is trusted: a datagram has not harmed a proven entry, the key of every
proven entry derives its node id, and there are not too many entries. -/
structure Trusted (c : Crypto) (p : PeerProcess) (event : PeerEvent) : Prop where
  unharmed : event.isDatagram → ∀ nodeId e e', p.table.get nodeId = some e →
    e.handshakeProven → (p.next c event).get nodeId = some e' → e.Unharmed e'
  derived : ∀ nodeId e, (p.next c event).get nodeId = some e → e.handshakeProven →
    deriveNodeId c e.ed25519Pubkey = nodeId
  bounded : (p.next c event).peers.length ≤ kMaxPeers

/-- **The condition**: an mDNS datagram about a proven peer gives the address that is known, and
`HandleRequest` does not prove an entry that has no key. -/
def Safe (c : Crypto) (p : PeerProcess) : PeerEvent → Prop
  | .mdns _ nodeId host p2pPort apiPort =>
    p.acceptsMdns nodeId → ∀ e, p.table.get nodeId = some e → e.handshakeProven →
      (e.host ≠ [] → host = e.host) ∧ (e.p2pPort ≠ 0 → p2pPort = e.p2pPort) ∧
        (e.apiPort ≠ 0 → apiPort ≠ 0 → apiPort = e.apiPort)
  | .contact _ _ copy =>
    p.inContact copy → ∀ e, p.table.get copy.nodeId = some e → e.Keyed c copy
  | _ => True

/-- What holds of the table and of the copies. -/
structure Inv (c : Crypto) (p : PeerProcess) : Prop where
  sound : p.table.Sound c
  copies : ∀ e ∈ p.copies, e.Bound c
  bounded : p.table.peers.length ≤ kMaxPeers

variable {copy : PeerEntry}

lemma Inv.bound_of_inContact (h : Inv c p) (hcopy : p.inContact copy) :
    copy.Bound c :=
  h.copies copy (decide_eq_true_iff.mp (Bool.and_eq_true_iff.mp hcopy).1)

variable {nodeId : Bytes}

/-- What a probe writes back is bound: another node id gets a placeholder only. -/
lemma Inv.bound_probed (h : Inv c p) (hprobe : p.inProbe copy nodeId) (nowMs : Int64)
    (isSupervisor : Bool) :
    (probed nowMs copy nodeId isSupervisor).Bound c := by
  obtain ⟨hmem, hid⟩ := Bool.and_eq_true_iff.mp hprobe
  have hbound := h.copies copy (decide_eq_true_iff.mp hmem)
  rcases (Bool.or_eq_true _ _).mp hid with hsame | hplaceholder
  · intro hany
    exact (hbound hany).trans (decide_eq_true_iff.mp hsame).symm
  · obtain ⟨hkey, hproven⟩ := hbound.placeholder hplaceholder
    exact PeerEntry.bound_of_unknown hkey hproven

/-- What a step can do: nothing, one `Upsert`, which is that of `HandleRequest` if it proves the
entry, or one of the other calls. -/
lemma Inv.next_cases (h : Inv c p) (event : PeerEvent) :
    p.next c event = p.table ∨
    (∃ order info source, p.next c event = p.table.upsert order info source ∧ info.Bound c ∧
      (source = .kHandshake → ∃ nowMs copy, event = .contact order nowMs copy ∧
        p.inContact copy ∧ info = { copy with lastSeenMs := nowMs })) ∨
    (∃ nowMs nodeId pubkey host p2pPort, deriveNodeId c pubkey = nodeId ∧
      p.next c event = p.table.markHandshakeProven nowMs nodeId pubkey host p2pPort) ∨
    (∃ nodeId successRate, p.next c event = p.table.recordProbe nodeId successRate) ∨
    (∃ oldId realId, p.next c event = (p.table.adoptIdentity oldId realId).2) ∨
    ∃ nodeId state, p.next c event = p.table.setState nodeId state := by
  cases event with
  | beacon order nowMs host b =>
    rw [next]
    split_ifs with haccepts
    · refine Or.inr (Or.inl ⟨order, _, _, rfl, fun _ => ?_, nofun⟩)
      simp only [acceptsBeacon, Bool.and_eq_true, decide_eq_true_eq] at haccepts
      exact haccepts.1.1.2
    · exact Or.inl rfl
  | mdns order nodeId host p2pPort apiPort =>
    rw [next]
    split_ifs
    · exact Or.inr (Or.inl ⟨order, _, _, rfl, PeerEntry.bound_of_unknown rfl rfl, nofun⟩)
    · exact Or.inl rfl
  | bootstrap order nowMs spec host p2pPort =>
    exact Or.inr (Or.inl ⟨order, _, _, rfl, PeerEntry.bound_of_unknown rfl rfl, nofun⟩)
  | handshake nowMs nodeId pubkey host p2pPort =>
    rw [next]
    split_ifs with hderive
    · exact Or.inr (Or.inr (Or.inl ⟨nowMs, nodeId, pubkey, host, p2pPort, hderive, rfl⟩))
    · exact Or.inl rfl
  | read nodeId => exact Or.inl rfl
  | contact order nowMs copy =>
    rw [next]
    split_ifs with hcontact
    · have hbound := h.bound_of_inContact hcontact
      exact Or.inr (Or.inl ⟨order, _, _, rfl, fun hany => hbound hany,
        fun _ => ⟨nowMs, copy, rfl, hcontact, rfl⟩⟩)
    · exact Or.inl rfl
  | heartbeat order copy =>
    rw [next]
    split_ifs with hcontact
    · have hbound := h.bound_of_inContact hcontact
      exact Or.inr (Or.inl ⟨order, _, _, rfl, fun hany => hbound hany, nofun⟩)
    · exact Or.inl rfl
  | probe order nowMs copy nodeId isSupervisor =>
    rw [next]
    split_ifs with hprobe
    · exact Or.inr (Or.inl ⟨order, _, _, rfl, h.bound_probed hprobe nowMs isSupervisor, nofun⟩)
    · exact Or.inl rfl
  | recordProbe nodeId successRate =>
    exact Or.inr (Or.inr (Or.inr (Or.inl ⟨nodeId, successRate, rfl⟩)))
  | adopt oldId realId => exact Or.inr (Or.inr (Or.inr (Or.inr (Or.inl ⟨oldId, realId, rfl⟩))))
  | setState nodeId state =>
    exact Or.inr (Or.inr (Or.inr (Or.inr (Or.inr ⟨nodeId, state, rfl⟩))))

lemma Inv.length_next (h : Inv c p) (event : PeerEvent) :
    (p.next c event).peers.length ≤ kMaxPeers := by
  rcases h.next_cases event with heq | ⟨order, info, source, heq, -, -⟩ |
    ⟨nowMs, nodeId, pubkey, host, p2pPort, -, heq⟩ | ⟨nodeId, successRate, heq⟩ |
    ⟨oldId, realId, heq⟩ | ⟨nodeId, state, heq⟩ <;> rw [heq]
  · exact h.bounded
  · exact PeerTable.length_upsert h.bounded
  · exact PeerTable.length_markHandshakeProven h.bounded ..
  · exact PeerTable.length_recordProbe h.bounded ..
  · exact PeerTable.length_adoptIdentity h.bounded ..
  · exact PeerTable.length_setState h.bounded ..

variable {event : PeerEvent}

lemma Inv.sound_next (h : Inv c p) (hsafe : Safe c p event) :
    (p.next c event).Sound c := by
  rcases h.next_cases event with heq | ⟨order, info, source, heq, hbound, hcontact⟩ |
    ⟨nowMs, nodeId, pubkey, host, p2pPort, hderive, heq⟩ | ⟨nodeId, successRate, heq⟩ |
    ⟨oldId, realId, heq⟩ | ⟨nodeId, state, heq⟩ <;> rw [heq]
  · exact h.sound
  · refine h.sound.upsert hbound fun hsource e hget => ?_
    obtain ⟨nowMs, copy, rfl, hcopy, rfl⟩ := hcontact hsource
    exact hsafe hcopy e hget
  · exact h.sound.markHandshakeProven nowMs host p2pPort hderive
  · exact h.sound.recordProbe nodeId successRate
  · exact h.sound.adoptIdentity oldId realId
  · exact h.sound.setState nodeId state

lemma Inv.step (h : Inv c p) (hsafe : Safe c p event) :
    Inv c (p.step c event).1 := by
  refine ⟨h.sound_next hsafe, fun e he => ?_, h.length_next event⟩
  cases event with
  | read nodeId =>
    rcases List.mem_append.mp he with hread | hold
    · exact (h.sound nodeId e (Option.mem_toList.mp hread)).2
    · exact h.copies e hold
  | beacon | mdns | bootstrap | handshake | contact | heartbeat | probe | recordProbe | adopt
  | setState => exact h.copies e he

/-! ## Datagrams -/

variable {order : MapOrder (Bytes × PeerEntry)} {host : Bytes}

/-- A beacon only fills what is missing. -/
lemma unharmed_beacon {nowMs : Int64} {b : UdpBeacon} {e e' : PeerEntry}
    (hget : p.table.get nodeId = some e) (hproven : e.handshakeProven)
    (hget' : (p.next c (.beacon order nowMs host b)).get nodeId = some e') : e.Unharmed e' := by
  rw [next] at hget'
  split_ifs at hget'
  · rcases PeerTable.get_upsert_cases hget hget' with rfl | ⟨-, rfl⟩
    · exact .refl _
    · rw [PeerTable.merged, if_pos ⟨hproven, rfl⟩]
      exact PeerEntry.unharmed_fillMissing ..
  · rw [Option.some_inj.mp (hget.symm.trans hget')]
    exact .refl _

variable {p2pPort apiPort : UInt16}

/-- An mDNS datagram replaces the address of the entry. -/
lemma unharmed_overwrite_iff (e : PeerEntry) :
    e.Unharmed (e.overwrite { nodeId, host, p2pPort, apiPort } .kMdns) ↔
      (e.host ≠ [] → host = e.host) ∧ (e.p2pPort ≠ 0 → p2pPort = e.p2pPort) ∧
        (e.apiPort ≠ 0 → apiPort ≠ 0 → apiPort = e.apiPort) := by
  have hport : (e.overwrite { nodeId, host, p2pPort, apiPort } .kMdns).apiPort =
      if apiPort ≠ 0 then apiPort else e.apiPort := rfl
  constructor
  · intro h
    refine ⟨h.host, h.p2pPort, fun hne hnew => ?_⟩
    have hsame := h.apiPort hne
    rwa [hport, if_pos hnew] at hsame
  · rintro ⟨hhost, hp2p, hapi⟩
    refine ⟨rfl, hhost, hp2p, fun hne => ?_, rfl⟩
    rw [hport]
    split_ifs with hnew
    · exact hapi hne hnew
    · rfl

lemma unharmed_mdns {id : Bytes} (hsafe : Safe c p (.mdns order id host p2pPort apiPort))
    {e e' : PeerEntry} (hget : p.table.get nodeId = some e) (hproven : e.handshakeProven)
    (hget' : (p.next c (.mdns order id host p2pPort apiPort)).get nodeId = some e') :
    e.Unharmed e' := by
  rw [next] at hget'
  split_ifs at hget' with haccepts
  · rcases PeerTable.get_upsert_cases hget hget' with rfl | ⟨rfl, rfl⟩
    · exact .refl _
    · rw [PeerTable.merged, if_neg fun hboth => nomatch hboth.2]
      exact (unharmed_overwrite_iff e).mpr (hsafe haccepts e hget hproven)
  · rw [Option.some_inj.mp (hget.symm.trans hget')]
    exact .refl _

/-! ## The theorem -/

lemma Inv.trusted (h : Inv c p) (hsafe : Safe c p event) :
    Trusted c p event := by
  refine ⟨fun hdatagram nodeId e e' hget hproven hget' => ?_, fun nodeId e hget hproven => ?_,
    h.length_next event⟩
  · cases event with
    | beacon order nowMs host b => exact unharmed_beacon hget hproven hget'
    | mdns order id host p2pPort apiPort => exact unharmed_mdns hsafe hget hproven hget'
    | bootstrap | handshake | read | contact | heartbeat | probe | recordProbe | adopt
    | setState => exact absurd hdatagram Bool.false_ne_true
  · obtain ⟨hid, hbound⟩ := h.sound_next hsafe nodeId e hget
    exact (hbound (Or.inr hproven)).trans hid

/-- A step that does not meet the condition breaks the trust. -/
lemma Trusted.safe (htrusted : Trusted c p event) : Safe c p event := by
  cases event with
  | mdns order nodeId host p2pPort apiPort =>
    intro haccepts e hget hproven
    have hnext : (p.next c (.mdns order nodeId host p2pPort apiPort)).get nodeId =
        some (e.overwrite { nodeId, host, p2pPort, apiPort } .kMdns) := by
      rw [next, if_pos haccepts, PeerTable.upsert_of_some hget, PeerTable.get_insert, if_pos rfl,
        PeerTable.merged, if_neg fun hboth => nomatch hboth.2]
    exact (unharmed_overwrite_iff e).mp (htrusted.unharmed rfl nodeId e _ hget hproven hnext)
  | contact order nowMs copy =>
    intro hcontact e hget hown hkey
    have hnext : (p.next c (.contact order nowMs copy)).get copy.nodeId =
        some (e.overwrite { copy with lastSeenMs := nowMs } .kHandshake) := by
      have hinsert : p.table.upsert order { copy with lastSeenMs := nowMs } .kHandshake =
          p.table.insert copy.nodeId
            (PeerTable.merged e { copy with lastSeenMs := nowMs } .kHandshake) :=
        PeerTable.upsert_of_some hget
      rw [next, if_pos hcontact, hinsert, PeerTable.get_insert, if_pos rfl, PeerTable.merged,
        if_neg fun hboth => nomatch hboth.2]
    have hderived := htrusted.derived copy.nodeId _ hnext rfl
    change deriveNodeId c (if copy.ed25519Pubkey ≠ [] then copy.ed25519Pubkey
      else e.ed25519Pubkey) = copy.nodeId at hderived
    rwa [if_neg fun hne => hne hkey, hown] at hderived
  | beacon | bootstrap | handshake | read | heartbeat | probe | recordProbe | adopt
  | setState => trivial

/-- **When the peer table is trusted**: after every step of a run, exactly if every mDNS datagram
about a proven peer gives the address that is known, and `HandleRequest` proves no entry without a
key. -/
theorem peer_trust_iff (c : Crypto) (self : Bytes) (events : List PeerEvent) :
    Runs.Guarded (step c) (Trusted c) { self } events ↔
      Runs.Guarded (step c) (Safe c) { self } events := by
  have hinit : Inv c { self } := ⟨nofun, nofun, Nat.zero_le _⟩
  constructor
  · exact Runs.Guarded.of_invariant (fun p event ht hp => hp.step ht.safe)
      (fun p event ht _ => ht.safe) hinit
  · exact Runs.Guarded.of_invariant (fun p event hs hp => hp.step hs)
      (fun p event hs hp => hp.trusted hs) hinit

/-! ## A redirected peer -/

/-- The node id of a peer. -/
def samplePeerId : Bytes := deriveNodeId sampleCrypto [1]

/-- A peer makes a handshake, and then an mDNS datagram gives another address for it. -/
def redirectingEvents : List PeerEvent :=
  [.handshake 1 samplePeerId [1] (text "10.0.0.1") 7000,
    .mdns ⟨id, fun l => .refl l⟩ samplePeerId (text "10.9.9.9") 7777 0]

/-- The entry is still proven, and the node now dials the address of the datagram. -/
theorem mdns_redirects_proven_peer :
    ((Runs.final (step sampleCrypto) { self := [] } redirectingEvents).table.get samplePeerId).map
        (fun e => (e.handshakeProven, e.host, e.p2pPort)) =
      some (true, text "10.9.9.9", 7777) ∧
    ¬ Runs.Guarded (step sampleCrypto) (Trusted sampleCrypto) { self := [] } redirectingEvents := by
  refine ⟨by decide +kernel, fun htrusted => ?_⟩
  have hbefore : ((PeerProcess.step sampleCrypto { self := [] }
      (.handshake 1 samplePeerId [1] (text "10.0.0.1") 7000)).1.table.get samplePeerId) =
      some { nodeId := samplePeerId, ed25519Pubkey := [1], host := text "10.0.0.1",
             p2pPort := 7000, lastSeenMs := 1, handshakeProven := true } := by decide +kernel
  have hafter : ((Runs.final (step sampleCrypto) { self := [] } redirectingEvents).table.get
      samplePeerId) =
      some { nodeId := samplePeerId, ed25519Pubkey := [1], host := text "10.9.9.9",
             p2pPort := 7777, handshakeProven := true } := by decide +kernel
  have hharm := htrusted.2.1.unharmed rfl samplePeerId _ _ hbefore rfl hafter
  exact absurd (hharm.host (by decide)) (by decide)

end PeerProcess

end DeSentry
