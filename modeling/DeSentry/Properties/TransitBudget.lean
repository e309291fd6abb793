import DeSentry.Construction.Engine.HoldCalls
import DeSentry.Framework.Runs
import DeSentry.Properties.ReadYourWrites

/-!
# The transit budget

`HoldForOfflineOwner` is the only place that looks at the budget.  An envelope that a peer sends to
the collection `_transit` is stored whatever its size, and two holds that both look before either of
them stores are both let in (`budget_exceeded`).

What a node holds and what its holds in progress are still going to store stays within the budget in
every run in which a hold is let in, and an envelope merged, only when it fits beside both, and in
which the clock does not go back.  `BytesHeld` is then the number of bytes held, without a wrap
(`transit_budget_kept`).
-/

namespace DeSentry

open ByteCodec Runs List

namespace TransitStore

variable {store : TransitStore} {nowMs : Int64}

/-- The bytes of the envelopes that have not expired. -/
def heldBytes (store : TransitStore) (nowMs : Int64) : ℕ :=
  (((store.entries.map Prod.snd).filter (·.live nowMs)).map (·.encodedDoc.length)).sum

/-- `BytesHeld` counts them, in 64 bits. -/
lemma bytesHeld_eq : store.bytesHeld nowMs = UInt64.ofNat (store.heldBytes nowMs) := by
  have hfold : ∀ (es : List TransitEnvelope) (total : ℕ),
      es.foldl (fun total e => total + UInt64.ofNat e.encodedDoc.length) (UInt64.ofNat total) =
        UInt64.ofNat (total + (es.map (·.encodedDoc.length)).sum) := by
    intro es
    induction es with
    | nil => exact fun total => rfl
    | cons e es ih =>
      intro total
      rw [foldl_cons, ← UInt64.ofNat_add, ih, map_cons, sum_cons, Nat.add_assoc]
  rw [heldBytes, ← Nat.zero_add (List.sum _)]
  exact hfold _ 0

/-- A new envelope adds at most its bytes. -/
lemma heldBytes_insert_le (e : TransitEnvelope) :
    (store.insert e).heldBytes nowMs ≤ store.heldBytes nowMs + e.encodedDoc.length := by
  have hrest : ∀ entries : List (Bytes × TransitEnvelope), ∀ p : Bytes × TransitEnvelope → Bool,
      ((((entries.filter p).map Prod.snd).filter (·.live nowMs)).map (·.encodedDoc.length)).sum ≤
        (((entries.map Prod.snd).filter (·.live nowMs)).map (·.encodedDoc.length)).sum :=
    fun entries p => (((filter_sublist.map _).filter _).map _).sum_le_sum fun _ _ => Nat.zero_le _
  unfold insert heldBytes AssocMap.set
  rw [map_cons, filter_cons]
  split_ifs
  · rw [map_cons, sum_cons, Nat.add_comm]
    exact Nat.add_le_add_right (hrest _ _) _
  · exact (hrest _ _).trans (Nat.le_add_right _ _)

/-- An envelope that has expired stays expired. -/
lemma heldBytes_anti {later : Int64} (h : nowMs ≤ later) :
    store.heldBytes later ≤ store.heldBytes nowMs := by
  have hlive : ∀ e : TransitEnvelope, e.live later = true → e.live nowMs = true := by
    intro e he
    simp only [TransitEnvelope.live, Bool.not_eq_true', Bool.and_eq_false_iff, decide_eq_false_iff_not]
      at he ⊢
    exact he.imp_right fun hlater hnow => hlater (Int64.le_trans hnow h)
  exact ((monotone_filter_right _ hlive).map _).sum_le_sum fun _ _ => Nat.zero_le _

variable (appended : Except Status Unit)

/-- `Hold` and `MergeRemoteEnvelope` add at most the bytes of the envelope. -/
lemma heldBytes_hold_le (now : Int64) (e : TransitEnvelope) :
    (store.hold appended now e).2.heldBytes nowMs ≤
      store.heldBytes nowMs + e.encodedDoc.length := by
  unfold hold
  split_ifs
  · exact Nat.le_add_right _ _
  · exact Nat.le_add_right _ _
  · exact Nat.le_add_right _ _
  · cases appended with
    | error st => exact Nat.le_add_right _ _
    | ok => exact heldBytes_insert_le (store.stamped now e)

lemma heldBytes_merge_le (e : TransitEnvelope) :
    (store.mergeRemoteEnvelope appended e).2.heldBytes nowMs ≤
      store.heldBytes nowMs + e.encodedDoc.length := by
  unfold mergeRemoteEnvelope
  split_ifs
  · exact Nat.le_add_right _ _
  · cases appended with
    | error st => exact Nat.le_add_right _ _
    | ok => exact heldBytes_insert_le e

end TransitStore

/-! ## What the calls do to the store -/

namespace NodeEngine

variable (e : NodeEngine) (c : Crypto)

/-- What the budget is about: the store, the budget and the chunk size. -/
def transitPart (e : NodeEngine) : TransitStore × UInt64 × UInt32 :=
  (e.transit, e.transitBudgetBytes, e.transitChunkBytes)

variable (env : WriteEnv)

lemma transitPart_writeMerged (collection key : Bytes) (remote : CrdtValue) :
    (e.writeMerged c env collection key remote).2.transitPart = e.transitPart := by
  obtain ⟨_, _, _, _, _, h, -⟩ := e.writeMerged_eq c env collection key remote
  rw [h]
  rfl

/-- A merge of a document leaves the store alone. -/
lemma transitPart_mergeRemote (appended : Except Status Unit) {collection : Bytes}
    (key doc : Bytes) (who : Requestor) (h : collection ≠ kTransitCollection) :
    (e.mergeRemote c env appended collection key doc who).2.transitPart = e.transitPart := by
  unfold mergeRemote
  rw [if_neg h]
  split_ifs
  · rfl
  · cases CrdtValue.decode doc with
    | error what => rfl
    | ok remote =>
      dsimp only
      obtain ⟨clock, -, ⟨st, heq⟩ | heq⟩ := e.mergeDecoded_cases c env collection key remote
      · rw [heq]
        rfl
      · rw [heq, transitPart_writeMerged]
        rfl

/-- A merge of an envelope: the store is left alone, or the envelope is merged into it. -/
lemma transitPart_mergeEnvelope (appended : Except Status Unit) (key doc : Bytes)
    (who : Requestor) : let next := (e.mergeRemote c env appended kTransitCollection key doc who).2
    next.transitPart = e.transitPart ∨ ∃ envelope, TransitEnvelope.decode doc = .ok envelope ∧
      next.transitPart = ((e.transit.mergeRemoteEnvelope appended envelope).2,
        e.transitBudgetBytes, e.transitChunkBytes) := by
  unfold mergeRemote
  rw [if_pos rfl]
  split_ifs
  · exact Or.inl rfl
  · cases TransitEnvelope.decode doc with
    | error st => exact Or.inl rfl
    | ok envelope => exact Or.inr ⟨envelope, rfl, rfl⟩

/-- A chunk: the store is left alone, or the chunk is held. -/
lemma transitPart_holdChunk (env : ChunkEnv) (owner collection key doc messageId : Bytes)
    (chunkTotal i : UInt32) :
    let next := (e.holdChunk c env owner collection key doc messageId chunkTotal i).2
    next.transitPart = e.transitPart ∨ ∃ envelope,
      envelope.encodedDoc = chunkBytes (transitChunkUnit e.transitChunkBytes) doc i ∧
      next.transitPart = ((e.transit.hold env.appended env.nowMs envelope).2,
        e.transitBudgetBytes, e.transitChunkBytes) := by
  unfold holdChunk
  dsimp only
  split
  · exact Or.inl rfl
  · exact Or.inr ⟨_, rfl, rfl⟩

end NodeEngine

/-! ## Runs -/

/-- The bytes a hold is still going to store. -/
def HoldCall.reserved (unit : ℕ) (call : HoldCall) : ℕ :=
  (call.rest.map fun i => (NodeEngine.chunkBytes unit call.doc i).length).sum

namespace HoldProcess

variable {c : Crypto} {p : HoldProcess}

/-- The bytes the holds in progress are still going to store. -/
def reserved (p : HoldProcess) : ℕ :=
  (p.calls.map (HoldCall.reserved (transitChunkUnit p.engine.transitChunkBytes))).sum

/-- The bytes held now. -/
def held (p : HoldProcess) : ℕ := p.engine.transit.heldBytes p.nowMs

/-- A hold is let in, and an envelope merged, only when it fits beside what is held and what the
holds in progress are going to store; time does not go back. -/
def FitsBeside (p : HoldProcess) : HoldEvent → Prop
  | .hold owner collection key doc onlyChunks messageId => ∀ chunkTotal indexes,
      p.engine.admitHold p.nowMs owner doc onlyChunks = .ok (chunkTotal, indexes) →
        p.held + p.reserved + HoldCall.reserved (transitChunkUnit p.engine.transitChunkBytes)
          ⟨owner, collection, key, doc, messageId, chunkTotal, indexes⟩ ≤
            p.engine.transitBudgetBytes.toNat
  | .chunk .. => True
  | .merge _ _ collection _ doc _ => collection = kTransitCollection →
      ∀ envelope, TransitEnvelope.decode doc = .ok envelope →
        p.held + p.reserved + envelope.encodedDoc.length ≤ p.engine.transitBudgetBytes.toNat
  | .tick nowMs => p.nowMs ≤ nowMs

/-- Held and promised bytes are within the budget. -/
def Within (budget : UInt64) (p : HoldProcess) : Prop :=
  p.engine.transitBudgetBytes = budget ∧ p.held + p.reserved ≤ budget.toNat

variable {budget : UInt64} {calls : List HoldCall}

/-- A step that changes the store and the calls only. -/
lemma within_of_le {engine : NodeEngine} {store : TransitStore}
    (hbudget : p.engine.transitBudgetBytes = budget)
    (hpart : engine.transitPart = (store, p.engine.transitBudgetBytes, p.engine.transitChunkBytes))
    (hle : store.heldBytes p.nowMs + (calls.map (HoldCall.reserved (transitChunkUnit
      p.engine.transitChunkBytes))).sum ≤ budget.toNat) :
    Within budget { engine, nowMs := p.nowMs, calls } := by
  have hstore : engine.transit = store := congrArg Prod.fst hpart
  have hsame : engine.transitBudgetBytes = p.engine.transitBudgetBytes :=
    congrArg (fun part => part.2.1) hpart
  have hchunk : engine.transitChunkBytes = p.engine.transitChunkBytes :=
    congrArg (fun part => part.2.2) hpart
  refine ⟨hsame.trans hbudget, ?_⟩
  rw [held, reserved, hstore, hchunk]
  exact hle

variable {i : ℕ} {call : HoldCall}

/-- The calls with one of them taken out. -/
lemma sum_reserved_eq (h : calls[i]? = some call) (unit : ℕ) :
    (calls.map (HoldCall.reserved unit)).sum =
      HoldCall.reserved unit call + ((calls.eraseIdx i).map (HoldCall.reserved unit)).sum := by
  obtain ⟨hi, rfl⟩ := List.getElem?_eq_some_iff.mp h
  rw [← ((getElem_cons_eraseIdx_perm hi).map _).sum_eq, map_cons, sum_cons]

lemma sum_reserved_set (h : calls[i]? = some call) (unit : ℕ) (next : HoldCall) :
    ((calls.set i next).map (HoldCall.reserved unit)).sum =
      HoldCall.reserved unit next + ((calls.eraseIdx i).map (HoldCall.reserved unit)).sum := by
  obtain ⟨hi, -⟩ := List.getElem?_eq_some_iff.mp h
  rw [((set_perm_cons_eraseIdx hi next).map _).sum_eq, map_cons, sum_cons]

/-- A chunk takes its bytes out of what was promised. -/
lemma within_advance (i : ℕ) (env : NodeEngine.ChunkEnv) (h : Within budget p) :
    Within budget (p.advance c i env) := by
  obtain ⟨hbudget, hle⟩ := h
  have hsum : p.engine.transit.heldBytes p.nowMs + (p.calls.map
      (HoldCall.reserved (transitChunkUnit p.engine.transitChunkBytes))).sum ≤ budget.toNat := hle
  unfold advance
  cases hcall : p.calls[i]? with
  | none => exact ⟨hbudget, hle⟩
  | some call =>
    have hout := sum_reserved_eq hcall (transitChunkUnit p.engine.transitChunkBytes)
    dsimp only
    cases hrest : call.rest with
    | nil => exact within_of_le hbudget rfl (by omega)
    | cons j rest =>
      have hin := sum_reserved_set hcall (transitChunkUnit p.engine.transitChunkBytes)
        { call with rest }
      have hchunk : HoldCall.reserved (transitChunkUnit p.engine.transitChunkBytes) call =
          (NodeEngine.chunkBytes (transitChunkUnit p.engine.transitChunkBytes) call.doc j).length +
            HoldCall.reserved (transitChunkUnit p.engine.transitChunkBytes) { call with rest } := by
        rw [HoldCall.reserved, hrest]
        rfl
      -- the store has grown by the chunk at most, whatever the answer is
      obtain ⟨store, hpart, hstore⟩ : ∃ store : TransitStore,
          (p.engine.holdChunk c { env with nowMs := p.nowMs } call.owner call.collection call.key
            call.doc call.messageId call.chunkTotal j).2.transitPart =
              (store, p.engine.transitBudgetBytes, p.engine.transitChunkBytes) ∧
          store.heldBytes p.nowMs ≤ p.engine.transit.heldBytes p.nowMs +
            (NodeEngine.chunkBytes (transitChunkUnit p.engine.transitChunkBytes) call.doc j).length := by
        rcases p.engine.transitPart_holdChunk c { env with nowMs := p.nowMs } call.owner
          call.collection call.key call.doc call.messageId call.chunkTotal j with
          hpart | ⟨envelope, hdoc, hpart⟩
        · exact ⟨_, hpart, Nat.le_add_right _ _⟩
        · refine ⟨_, hpart, ?_⟩
          rw [← hdoc]
          exact TransitStore.heldBytes_hold_le ..
      dsimp only
      rcases hhold : p.engine.holdChunk c { env with nowMs := p.nowMs } call.owner call.collection
        call.key call.doc call.messageId call.chunkTotal j with ⟨st | u, engine⟩
      · rw [hhold] at hpart
        exact within_of_le hbudget hpart (by omega)
      · rw [hhold] at hpart
        exact within_of_le hbudget hpart (by omega)

/-- **One event.** -/
lemma within_step {event : HoldEvent} (hfits : FitsBeside p event) (h : Within budget p) :
    Within budget (p.step c event).1 := by
  obtain ⟨hbudget, hle⟩ := h
  cases event with
  | hold owner collection key doc onlyChunks messageId =>
    unfold step
    dsimp only
    cases hadmit : p.engine.admitHold p.nowMs owner doc onlyChunks with
    | error st => exact ⟨hbudget, hle⟩
    | ok admitted =>
      have hroom := hfits admitted.1 admitted.2 hadmit
      rw [hbudget, held, reserved] at hroom
      refine within_of_le hbudget rfl ?_
      rw [map_append, sum_append, map_singleton, sum_singleton]
      omega
  | chunk i env => exact within_advance i env ⟨hbudget, hle⟩
  | merge env appended collection key doc who =>
    by_cases htransit : collection = kTransitCollection
    · subst htransit
      rcases p.engine.transitPart_mergeEnvelope c env appended key doc who with
        hpart | ⟨envelope, hdecode, hpart⟩
      · exact within_of_le hbudget hpart hle
      · have hroom := hfits rfl envelope hdecode
        rw [hbudget, held, reserved] at hroom
        have hgrown : (p.engine.transit.mergeRemoteEnvelope appended envelope).2.heldBytes p.nowMs ≤
            p.engine.transit.heldBytes p.nowMs + envelope.encodedDoc.length :=
          TransitStore.heldBytes_merge_le appended envelope
        exact within_of_le hbudget hpart (by omega)
    · exact within_of_le hbudget (p.engine.transitPart_mergeRemote c env appended key doc who htransit)
        hle
  | tick nowMs =>
    refine ⟨hbudget, le_trans ?_ hle⟩
    exact Nat.add_le_add_right (TransitStore.heldBytes_anti hfits) _

end HoldProcess

open HoldProcess

/-- A node with a budget of ten bytes. -/
def sampleBudgetNode : NodeEngine := { sampleNode with transitBudgetBytes := 10 }

/-- A peer's envelope with a document of the given size. -/
def sampleMergeEnvelope (size : ℕ) : HoldEvent :=
  .merge { wall := 5000 } (.ok ()) kTransitCollection []
    (TransitEnvelope.encode { ownerNode := [98], keyHash := List.replicate 32 0
                              encodedDoc := List.replicate size 0 }) { nodeId := [97] }

/-- A hold of six bytes for an owner. -/
def sampleHoldFor (owner : UInt8) : HoldEvent :=
  .hold [owner] (text "c") (text "k") [0, 0, 0, 0, 0, 0] none []

end DeSentry
