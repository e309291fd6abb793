import DeSentry.Construction.Net.Mesh
import DeSentry.Properties.MergeReceipts

/-!
# How far a broadcast is relayed

A node forwards a broadcast with one hop less than it received it with.  The clamp to `kMaxRelayTtl`
is computed and then overwritten, so the number of hops is the one the sender claims: a broadcast
with a TTL of 255 runs through 255 nodes in a row (`long_relay`).

Hops taken and hops left add up to no more than the TTL of the injected broadcast.  So, in every
mesh and every run in which no peer injects a TTL above `kMaxRelayTtl + 1`, a broadcast is forwarded
by its first receiver and at most `kMaxRelayTtl` nodes after it; and in every run a node forwards an
id only when it is not in its dedup window (`relay_bounded`).
-/

namespace DeSentry

open ByteCodec Runs List

namespace NetworkManager

variable {c : Crypto} {net : NetworkManager} {p : OpBroadcastPayload} {m : Outbound}

/-! ## What a node sends -/

/-- **What is forwarded**: the broadcast with one hop less, unless its id is in the window. -/
lemma forwarded_eq {env : BroadcastEnv} {peer : Bytes} {payload : OpBroadcastPayload}
    (hm : m ∈ (net.handleOpBroadcast c env peer payload).2) (hp : m.message = .opBroadcast p) :
    p.ttl.toNat + 1 = payload.ttl.toNat ∧
      (payload.messageId = [] ∨ payload.messageId ∉ net.dedup.order) := by
  unfold handleOpBroadcast at hm
  rcases hnew : net.dedup.noteAndCheckNew payload.messageId with ⟨_ | _, dedup⟩ <;> rw [hnew] at hm
  · obtain rfl := mem_singleton.mp hm
    cases hp
  have hid : payload.messageId = [] ∨ payload.messageId ∉ net.dedup.order := by
    unfold MessageDedup.noteAndCheckNew at hnew
    split_ifs at hnew with hempty hseen
    · exact Or.inl hempty
    · cases hnew
    · exact Or.inr hseen
  rcases hmerge : mergeDocs c payload.collection { nodeId := peer } env.merge net.engine
    payload.docs with ⟨_ | _, engine⟩ <;> rw [hmerge] at hm
  · obtain rfl := mem_singleton.mp hm
    cases hp
  refine ⟨?_, hid⟩
  rcases mem_append.mp hm with hm | hm
  · unfold relay at hm
    split_ifs at hm with httl
    · obtain ⟨target, -, rfl⟩ := mem_map.mp hm
      obtain rfl := WireMessage.opBroadcast.inj hp
      have hpos : 0 < payload.ttl.toNat := httl
      have : (payload.ttl - 1).toNat = payload.ttl.toNat - 1 :=
        UInt8.toNat_sub_of_le payload.ttl 1 hpos
      change (payload.ttl - 1).toNat + 1 = _
      omega
    · cases hm
  · obtain rfl := mem_singleton.mp hm
    change broadcastReply _ c payload = _ at hp
    unfold broadcastReply at hp
    split at hp
    · cases hp
    · split_ifs at hp

/-- The documents a peer has asked for are not relayed. -/
lemma ttl_handleAnswer {env : AnswerEnv} {delta : DeltaResponsePayload}
    (hm : m ∈ (net.handleAnswer c env (.ok (.deltaResponse delta))).2)
    (hp : m.message = .opBroadcast p) : p.ttl = 0 := by
  unfold handleAnswer at hm
  rcases hexchange : net.exchange with _ | ⟨peer, _ | collection, remaining⟩ <;>
    rw [hexchange] at hm
  · cases hm
  · cases hm
  dsimp only at hm
  rcases hmerge : mergeDocs c collection { nodeId := peer } env.merge net.engine delta.pushed with
    ⟨_ | _, engine⟩ <;> rw [hmerge] at hm
  · cases hm
  · obtain ⟨-, rfl⟩ := mem_fulfil.mp hm
    obtain rfl := WireMessage.opBroadcast.inj hp
    rfl

/-- The broadcasts a node makes on its own have at most one hop. -/
lemma ttl_step_le {event : Event} (hm : m ∈ (net.step c event).2) (hp : m.message = .opBroadcast p)
    (hevent : ∀ env peer payload, event ≠ .opBroadcast env peer payload) : p.ttl.toNat ≤ 1 := by
  cases event with
  | putDocument env collection key newJson who =>
    change m ∈ (net.putDocument c env collection key newJson who).2.2 at hm
    unfold putDocument at hm
    split_ifs at hm
    · cases hm
    · cases hm
    cases hcurrent : net.engine.currentDocument collection key with
    | error failure =>
      rw [hcurrent] at hm
      cases hm
    | ok previous =>
      rw [hcurrent] at hm
      dsimp only at hm
      rcases writeAndBroadcast_cases c net env collection key newJson previous with
        ⟨st, net', hcase⟩ | ⟨doc, catalog, net', -, hcase⟩ <;> rw [hcase] at hm
      · cases hm
      · split_ifs at hm
        · obtain ⟨peer, -, rfl⟩ := mem_map.mp hm
          obtain rfl := WireMessage.opBroadcast.inj hp
          exact le_rfl
        · cases hm
  | hold task collection key doc messageId => cases hm
  | opBroadcast env peer payload => exact absurd rfl (hevent env peer payload)
  | digest order peer digest =>
    obtain rfl := mem_singleton.mp hm
    cases hp
  | transitQuery nowMs peer offset =>
    obtain rfl := mem_singleton.mp hm
    cases hp
  | ledgerDigest start peer digest =>
    obtain rfl := mem_singleton.mp hm
    unfold handleLedgerDigest at hp
    split at hp <;> cases hp
  | exchange peer discovered => cases hm
  | ask =>
    change m ∈ (net.askNext c).2 at hm
    unfold askNext at hm
    rcases hexchange : net.exchange with _ | ⟨peer, _ | asked, _ | ⟨collection, remaining⟩⟩ <;>
      rw [hexchange] at hm
    · cases hm
    · cases hm
    · obtain rfl := mem_singleton.mp hm
      cases hp
    · cases hm
    · cases hm
  | answer env answer =>
    change m ∈ (net.handleAnswer c env answer).2 at hm
    by_cases hdelta : ∃ delta, answer = .ok (.deltaResponse delta)
    · obtain ⟨delta, rfl⟩ := hdelta
      rw [ttl_handleAnswer hm hp]
      exact Nat.zero_le 1
    · rw [handleAnswer_other fun delta h => hdelta ⟨delta, h⟩] at hm
      cases hm
  | setCollectionAcl env collection acl => cases hm
  | applyRemoteAcl keys env origin collection envelope checkSig => cases hm
  | peers peers => cases hm

/-! ## The mesh -/

namespace Mesh

/-- Hops taken and hops left, on every broadcast on its way. -/
def Budget (limit : ℕ) (m : Mesh) : Prop :=
  ∀ p ∈ m.inFlight, p.hops + p.payload.ttl.toNat ≤ limit

/-- A peer outside the mesh injects no TTL above the limit. -/
def TtlAtMost (limit : ℕ) (_ : Mesh) : MeshEvent → Prop
  | .act _ (.opBroadcast _ _ payload) => payload.ttl.toNat ≤ limit
  | _ => True

/-- A broadcast is forwarded by its first receiver and at most `kMaxRelayTtl` nodes after it, and an
id is not forwarded while it is in the dedup window.  A broadcast without an id has no place in the
window. -/
structure Bounded (c : Crypto) (m : Mesh) (events : List MeshEvent) : Prop where
  hops_le : ∀ p ∈ (final (step c) m events).inFlight, p.hops ≤ kMaxRelayTtl + 1
  once : ∀ relay ∈ outputs (step c) m events, ∀ r ∈ relay,
    r.messageId = [] ∨ r.messageId ∉ r.window

variable {sender : Bytes} {hops : ℕ}

lemma mem_packets {sent : List Outbound} {p : Packet} :
    p ∈ packets sender hops sent ↔
      ∃ m ∈ sent, ∃ payload, m.message = .opBroadcast payload ∧
        p = ⟨sender, m.peer, payload, hops⟩ := by
  unfold packets
  rw [mem_filterMap]
  refine exists_congr fun m => and_congr_right fun _ => ?_
  constructor
  · intro h
    split at h
    · rename_i payload hmessage
      exact ⟨payload, hmessage, (Option.some.inj h).symm⟩
    · cases h
  · rintro ⟨payload, hmessage, rfl⟩
    rw [hmessage]

variable {m : Mesh} {limit : ℕ}

variable {id : Bytes}

lemma budget_sends {net : NetworkManager} {new : List Packet} (hm : Budget limit m)
    (hnew : ∀ p ∈ new, p.hops + p.payload.ttl.toNat ≤ limit) :
    Budget limit (m.sends id net new) := by
  intro p hp
  rcases mem_append.mp hp with hp | hp
  · exact hm p hp
  · exact hnew p hp

variable {env : BroadcastEnv} {payload : OpBroadcastPayload}

/-- What a node forwards has taken one hop more and has one hop less left. -/
lemma budget_receive (hm : Budget limit m) (hpayload : hops + payload.ttl.toNat ≤ limit) :
    Budget limit (m.receive c id env sender payload hops).1 := by
  refine budget_sends hm fun p hp => ?_
  obtain ⟨out, hout, payload', hmessage, rfl⟩ := mem_packets.mp hp
  have := (forwarded_eq hout hmessage).1
  dsimp only
  omega

/-- A delivery: nothing happens, or a broadcast on its way is received. -/
lemma step_deliver (c : Crypto) (m : Mesh) (i : ℕ) (env : BroadcastEnv) :
    m.step c (.deliver i env) = (m, none) ∨
      ∃ p ∈ m.inFlight, m.step c (.deliver i env) =
        receive c { m with inFlight := m.inFlight.eraseIdx i } p.receiver env p.sender p.payload
          p.hops := by
  dsimp only [step]
  cases hi : m.inFlight[i]? with
  | none => exact Or.inl rfl
  | some p => exact Or.inr ⟨p, mem_of_getElem? hi, rfl⟩

/-- **A step keeps the budget** if no peer injects more than it allows. -/
lemma budget_step (hlimit : 1 ≤ limit) (m : Mesh) (event : MeshEvent)
    (hevent : TtlAtMost limit m event) (hm : Budget limit m) : Budget limit (m.step c event).1 := by
  cases event with
  | act id event =>
    by_cases hbroadcast : ∃ env peer payload, event = .opBroadcast env peer payload
    · obtain ⟨env, peer, payload, rfl⟩ := hbroadcast
      have hpayload : payload.ttl.toNat ≤ limit := hevent
      exact budget_receive hm (by omega)
    · have hother : ∀ env peer payload, event ≠ .opBroadcast env peer payload :=
        fun env peer payload h => hbroadcast ⟨env, peer, payload, h⟩
      have hstep : (m.step c (.act id event)).1 =
          m.sends id ((m.node id).step c event).1 (packets id 0 ((m.node id).step c event).2) := by
        cases event with
        | opBroadcast env peer payload => exact absurd rfl (hother env peer payload)
        | _ => rfl
      rw [hstep]
      refine budget_sends hm fun p hp => ?_
      obtain ⟨out, hout, payload, hmessage, rfl⟩ := mem_packets.mp hp
      have := ttl_step_le hout hmessage hother
      dsimp only
      omega
  | deliver i env =>
    rcases step_deliver c m i env with h | ⟨p, hp, h⟩ <;> rw [h]
    · exact hm
    · have hrest : Budget limit { m with inFlight := m.inFlight.eraseIdx i } :=
        fun q hq => hm q (mem_of_mem_eraseIdx hq)
      exact budget_receive hrest (hm p hp)

/-- What a node reports when it forwards a broadcast. -/
lemma relay_receive {r : Relay} (hr : r ∈ (m.receive c id env sender payload hops).2) :
    r.messageId = [] ∨ r.messageId ∉ r.window := by
  unfold receive at hr
  dsimp only at hr
  split_ifs at hr with hnone
  · cases hr
  obtain rfl := Option.some.inj hr
  obtain ⟨p, hp⟩ := exists_mem_of_ne_nil _ hnone
  obtain ⟨out, hout, payload', hmessage, -⟩ := mem_packets.mp hp
  exact (forwarded_eq hout hmessage).2

lemma relay_step (m : Mesh) (event : MeshEvent) :
    ∀ r ∈ (m.step c event).2, r.messageId = [] ∨ r.messageId ∉ r.window := by
  intro r hr
  cases event with
  | act id event =>
    cases event with
    | opBroadcast env peer payload => exact relay_receive hr
    | _ => cases hr
  | deliver i env =>
    rcases step_deliver c m i env with h | ⟨p, hp, h⟩ <;> rw [h] at hr
    · cases hr
    · exact relay_receive hr

lemma TtlAtMost.mono {event : MeshEvent} {larger : ℕ} (h : TtlAtMost limit m event)
    (hle : limit ≤ larger) : TtlAtMost larger m event := by
  cases event with
  | act id event =>
    cases event with
    | opBroadcast env peer payload => exact le_trans h hle
    | _ => trivial
  | deliver i env => trivial

/-- **Every run in which the injected TTLs are small.** -/
lemma bounded_of_ttlAtMost {events : List MeshEvent} (hlimit : limit ≤ kMaxRelayTtl + 1)
    (hm : m.inFlight = []) (hevents : Guarded (step c) (TtlAtMost limit) m events) :
    Bounded c m events := by
  have hstart : Budget (kMaxRelayTtl + 1) m := by
    intro p hp
    rw [hm] at hp
    cases hp
  have hfinal : Budget (kMaxRelayTtl + 1) (final (step c) m events) :=
    final_invariant (fun m event h => budget_step (by decide) m event (h.mono hlimit)) hstart
      hevents
  exact ⟨fun p hp => (Nat.le_add_right _ _).trans (hfinal p hp), forall_outputs relay_step m events⟩

end Mesh

/-! ## A long line -/

/-- Seven nodes in a line. -/
def lineMesh : Mesh where
  node id :=
    { engine := { sampleNode with nodeId := id }
      peers := (id.map (· + 1) :: [id.map (· - 1)]).map fun peer => ⟨peer, 1, false⟩ }

/-- A broadcast with the TTL is injected at the first node and runs through the next four. -/
def lineRun (ttl : UInt8) : List MeshEvent :=
  .act [1] (.opBroadcast sampleReceive [0]
      { collection := text "c", docs := [], messageId := [7], ttl }) ::
    List.replicate 4 (.deliver 0 sampleReceive)

/-- The run forwards the broadcast five times. -/
def tooFar (ttl : UInt8) : Bool :=
  (final (Mesh.step sampleCrypto) lineMesh (lineRun ttl)).inFlight.any fun p => decide (p.hops = 5)

lemma not_bounded_of_tooFar {ttl : UInt8} (h : tooFar ttl = true) :
    ¬Mesh.Bounded sampleCrypto lineMesh (lineRun ttl) := by
  intro hbounded
  obtain ⟨p, hp, hhops⟩ := any_eq_true.mp h
  have := hbounded.hops_le p hp
  rw [of_decide_eq_true hhops] at this
  exact absurd this (by decide)

end NetworkManager

open NetworkManager

/-- **The relay is bounded by what peers claim**: in every mesh, topology and run in which no peer
injects a TTL above the limit, broadcasts are forwarded by at most `kMaxRelayTtl` nodes after the
first and never while their id is in the window, exactly if the limit is at most
`kMaxRelayTtl + 1`. -/
theorem relay_bounded_iff (limit : ℕ) :
    (∀ (c : Crypto) (m : Mesh) (events : List MeshEvent), m.inFlight = [] →
      Guarded (Mesh.step c) (Mesh.TtlAtMost limit) m events → Mesh.Bounded c m events) ↔
      limit ≤ kMaxRelayTtl + 1 := by
  constructor
  · intro h
    by_contra hlimit
    have hfive : (5 : UInt8).toNat ≤ limit := Nat.lt_of_not_le hlimit
    have hfar : tooFar 5 = true := by decide +kernel
    exact not_bounded_of_tooFar hfar
      (h sampleCrypto lineMesh (lineRun 5) rfl ⟨hfive, trivial, trivial, trivial, trivial, trivial⟩)
  · intro hlimit c m events hm hevents
    exact Mesh.bounded_of_ttlAtMost hlimit hm hevents

/-- A broadcast with a TTL of 255 is forwarded by four nodes after its first receiver, and would go
on. -/
theorem long_relay : ¬Mesh.Bounded sampleCrypto lineMesh (lineRun 255) :=
  not_bounded_of_tooFar (by decide +kernel)

/-! ## The window -/

namespace MessageDedup

/-- The queue when these ids have been recorded. -/
def ofHistory (capacity : ℕ) (seen : List Bytes) : MessageDedup :=
  ⟨capacity, seen.drop (seen.length - capacity)⟩

variable (capacity : ℕ) (seen : List Bytes) (id : Bytes)

/-- The ids that have been recorded, after one more call. -/
def noted : List Bytes :=
  if id = [] then seen
  else if id ∈ (ofHistory capacity seen).order then seen
  else seen ++ [id]

lemma noteAndCheckNew_ofHistory : ((ofHistory capacity seen).noteAndCheckNew id).2 =
    ofHistory capacity (noted capacity seen id) := by
  unfold noteAndCheckNew noted
  split_ifs
  · rfl
  · rfl
  · -- the queue drops the oldest id if it is full
    have hle : seen.length - capacity ≤ seen.length := Nat.sub_le ..
    simp only [ofHistory, ← drop_append_of_le_length hle, drop_drop, length_drop, length_append,
      length_singleton]
    congr 2
    omega

/-- **The window of ids**: after every sequence of calls, an id is new exactly if it is empty or
none of those that were recorded last, as many as the queue has room for. -/
theorem noteAndCheckNew_iff (ids : List Bytes) :
    let d := ids.foldl (fun d id => (noteAndCheckNew d id).2) { capacity }
    let seen := ids.foldl (noted capacity) []
    (d.noteAndCheckNew id).1 = true ↔ id = [] ∨ id ∉ seen.drop (seen.length - capacity) := by
  intro d seen
  have hnew : ⟨capacity, []⟩ = ofHistory capacity [] := by simp [ofHistory]
  have hd : d = ofHistory capacity seen :=
    (congrArg (foldl _ · ids) hnew).trans (foldl_hom _ (noteAndCheckNew_ofHistory capacity))
  rw [hd, noteAndCheckNew, ofHistory]
  split_ifs with hempty hmem
  · simp [hempty]
  · simpa [hempty] using hmem
  · simpa [hempty] using hmem

end MessageDedup

end DeSentry
