import DeSentry.Construction.Net.TransitClaim
import DeSentry.Properties.ReadYourWrites

/-!
# Claiming a striped document

The chunks of a document are dealt out along the ranking of the nodes, so that a node holds some of
them; `ApplyHolderEntries` puts a document together from the chunks of one answer.  It never joins
the chunks of two holders.  A document with more chunks than a chunk has holders is claimed from
nobody, and one that several nodes hold as a whole is merged once for each of them.

`striped_claim_iff` says when a claim merges the document exactly once: exactly one holder has all
chunks, and they come in one answer.  Of `n` nodes with `H` holders for each of `T` chunks that is
the case if `n = 1`, or if `H < n` and `T = H` (`striped_claim_count_iff`).
-/

namespace DeSentry

open ByteCodec KeyedList List

/-! ## Chunks of a document -/

section Chunks

variable {doc : Bytes} {size : ℕ}

/-- The first chunks are the first bytes. -/
lemma flatten_chunks (size n : ℕ) :
    ((List.range n).map fun i => (doc.drop (i * size)).take size).flatten =
      doc.take (n * size) := by
  induction n with
  | zero => simp
  | succ n ih =>
    rw [range_succ, map_append, flatten_append, ih, Nat.succ_mul, take_add]
    simp

lemma toNat_ofNat_of_lt {total : UInt32} {i : ℕ} (hi : i < total.toNat) :
    (UInt32.ofNat i).toNat = i := by
  exact Nat.mod_eq_of_lt (Nat.lt_trans hi total.toNat_lt)

/-- The slots of `ordered` when the chunks with the given indexes have been entered. -/
def slots (total : UInt32) (f : UInt32 → TransitEntry) (entered : List UInt32) :
    List (Option TransitEntry) :=
  (List.range total.toNat).map fun j =>
    if UInt32.ofNat j ∈ entered then some (f (UInt32.ofNat j)) else none

variable {total : UInt32} {f : UInt32 → TransitEntry} {entered indexes : List UInt32}
  {i : UInt32} {first : TransitEntry}

lemma slots_nil : slots total f [] = List.replicate total.toNat none := by
  refine ext_getElem (by simp [slots]) fun j hj _ => ?_
  simp [slots]

lemma getElem?_slots (hi : i < total) :
    (slots total f entered)[i.toNat]? = some (if i ∈ entered then some (f i) else none) := by
  have hlt : i.toNat < total.toNat := UInt32.lt_iff_toNat_lt.mp hi
  rw [slots, getElem?_map, getElem?_range hlt, Option.map_some, UInt32.ofNat_toNat]

lemma set_slots :
    (slots total f entered).set i.toNat (some (f i)) = slots total f (i :: entered) := by
  refine ext_getElem (by simp [slots]) fun j hj hj' => ?_
  have hlt : j < total.toNat := by simpa [slots] using hj'
  by_cases hij : i.toNat = j
  · subst hij
    simp [slots]
  · have hne : UInt32.ofNat j ≠ i := by
      intro he
      exact hij (by rw [← he, toNat_ofNat_of_lt hlt])
    simp [slots, hij, hne]

/-- What the chunks of one document have in common. -/
structure ChunkFields (total : UInt32) (size : UInt64) (f : UInt32 → TransitEntry) : Prop where
  chunkTotal : ∀ i, (f i).chunkTotal = total
  docSizeBytes : ∀ i, (f i).docSizeBytes = size
  chunkIndex : ∀ i, (f i).chunkIndex = i

/-- Chunks with different indexes are entered one after the other. -/
lemma placeChunks_slots {bytes : UInt64} (hf : ChunkFields total bytes f)
    (hfirst : first.chunkTotal = total ∧ first.docSizeBytes = bytes)
    (hlt : ∀ i ∈ indexes, i < total) (hnodup : indexes.Nodup)
    (hnew : ∀ i ∈ indexes, i ∉ entered) :
    placeChunks first (slots total f entered) (indexes.map f) =
      some (slots total f (indexes.reverse ++ entered)) := by
  induction indexes generalizing entered with
  | nil => rfl
  | cons i indexes ih =>
    have hi : i < total := hlt i mem_cons_self
    have hfree : ((slots total f entered)[i.toNat]?).join = none := by
      rw [getElem?_slots hi, if_neg (hnew i mem_cons_self)]
      rfl
    obtain ⟨hnot, hnodup⟩ := nodup_cons.mp hnodup
    rw [map_cons, placeChunks, hf.chunkTotal, hf.docSizeBytes, hf.chunkIndex, hfirst.1,
      hfirst.2, hfree, if_neg (by simpa using hi), set_slots,
      ih (fun j hj => hlt j (mem_cons_of_mem _ hj)) hnodup]
    · rw [reverse_cons, append_assoc, singleton_append]
    · intro j hj hmem
      rcases mem_cons.mp hmem with rfl | hmem
      · exact hnot hj
      · exact hnew j (mem_cons_of_mem _ hj) hmem

/-- The slots are full exactly if every chunk has been entered. -/
lemma any_isNone_slots :
    (slots total f entered).any Option.isNone = false ↔ ∀ i < total, i ∈ entered := by
  rw [Bool.eq_false_iff, ne_eq, any_eq_true, not_exists]
  constructor
  · intro hfull i hi
    by_contra hmem
    have hget : (slots total f entered)[i.toNat]? = some none := by
      rw [getElem?_slots hi, if_neg hmem]
    exact hfull none ⟨mem_of_getElem? hget, rfl⟩
  · rintro hall slot ⟨hslot, hnone⟩
    obtain ⟨j, hj, rfl⟩ := mem_map.mp hslot
    have hmem : UInt32.ofNat j ∈ entered := by
      refine hall _ (UInt32.lt_iff_toNat_lt.mpr ?_)
      rw [toNat_ofNat_of_lt (mem_range.mp hj)]
      exact mem_range.mp hj
    rw [if_pos hmem] at hnone
    cases hnone

/-- Full slots are the chunks in their order. -/
lemma filterMap_slots (hall : ∀ i < total, i ∈ entered) :
    (slots total f entered).filterMap id =
      (List.range total.toNat).map fun j => f (UInt32.ofNat j) := by
  have hsome : slots total f entered =
      (List.range total.toNat).map fun j => some (f (UInt32.ofNat j)) := by
    refine map_congr_left fun j hj => if_pos (hall _ (UInt32.lt_iff_toNat_lt.mpr ?_))
    rw [toNat_ofNat_of_lt (mem_range.mp hj)]
    exact mem_range.mp hj
  rw [hsome, filterMap_map]
  exact congrFun filterMap_eq_map _

/-- The chunks of a document, as entries. -/
structure ChunksOf (doc : Bytes) (unit : ℕ) (total : UInt32) (f : UInt32 → TransitEntry) : Prop
    extends ChunkFields total (UInt64.ofNat doc.length) f where
  encodedDoc : ∀ i, (f i).encodedDoc = (doc.drop (i.toNat * unit)).take unit

variable {unit : ℕ}

/-- A striped document comes back exactly from all of its chunks. -/
lemma reassemble_striped (hf : ChunksOf doc unit total f) (hsize : doc.length < 2 ^ 64)
    (htotal : total ≠ 1) (hlt : ∀ i ∈ indexes, i < total) (hnodup : indexes.Nodup)
    (hfirst : first.chunkTotal = total ∧ first.docSizeBytes = UInt64.ofNat doc.length)
    (bytes : Bytes) :
    reassemble first (indexes.map f) = some bytes ↔
      total ≤ 4096 ∧ doc.length ≤ 64 * 1024 * 1024 ∧ (∀ i < total, i ∈ indexes) ∧
        doc.length ≤ total.toNat * unit ∧ bytes = doc := by
  have hlen : (UInt64.ofNat doc.length).toNat = doc.length := by
    exact Nat.mod_eq_of_lt hsize
  have hcap : UInt64.ofNat doc.length > 64 * 1024 * 1024 ↔ doc.length > 64 * 1024 * 1024 := by
    rw [gt_iff_lt, UInt64.lt_iff_toNat_lt, hlen]
    rfl
  have hplace : placeChunks first (slots total f []) (indexes.map f) =
      some (slots total f (indexes.reverse ++ [])) :=
    placeChunks_slots hf.toChunkFields hfirst hlt hnodup fun _ _ => not_mem_nil
  rw [slots_nil, append_nil] at hplace
  unfold reassemble
  rw [hfirst.1, hfirst.2, if_neg htotal, hplace]
  dsimp only
  by_cases hbound : total > 4096 ∨ UInt64.ofNat doc.length > 64 * 1024 * 1024
  · rw [if_pos hbound]
    refine iff_of_false nofun fun h => ?_
    rcases hbound with hbound | hbound
    · exact absurd h.1 (UInt32.not_le.mpr hbound)
    · exact absurd h.2.1 (Nat.not_le.mpr (hcap.mp hbound))
  rw [if_neg hbound]
  rw [not_or, hcap, UInt32.not_lt, Nat.not_lt] at hbound
  by_cases hall : ∀ i < total, i ∈ indexes
  · have hrev : ∀ i < total, i ∈ indexes.reverse := fun i hi => mem_reverse.mpr (hall i hi)
    have hparts : ((slots total f indexes.reverse).filterMap id).map (·.encodedDoc) =
        (List.range total.toNat).map fun j => (doc.drop (j * unit)).take unit := by
      rw [filterMap_slots hrev, map_map]
      refine map_congr_left fun j hj => ?_
      rw [Function.comp_apply, hf.encodedDoc, toNat_ofNat_of_lt (mem_range.mp hj)]
    rw [any_isNone_slots.mpr hrev, hparts, ← length_flatten,
      flatten_chunks]
    have hsum : UInt64.ofNat (doc.take (total.toNat * unit)).length = UInt64.ofNat doc.length ↔
        doc.length ≤ total.toNat * unit := by
      rw [← UInt64.toNat_inj, UInt64.toNat_ofNat', length_take]
      omega
    by_cases hcover : doc.length ≤ total.toNat * unit
    · rw [if_neg (not_not.mpr (hsum.mpr hcover)), take_of_length_le hcover]
      exact ⟨fun h => ⟨hbound.1, hbound.2, hall, hcover, (Option.some_inj.mp h).symm⟩,
        fun h => congrArg some h.2.2.2.2.symm⟩
    · rw [if_pos fun h => hcover (hsum.mp h)]
      exact iff_of_false nofun fun h => hcover h.2.2.2.1
  · have hnone : (slots total f indexes.reverse).any Option.isNone = true := by
      by_contra hfull
      have hin := any_isNone_slots.mp (Bool.eq_false_iff.mpr hfull)
      exact hall fun i hi => mem_reverse.mp (hin i hi)
    rw [if_pos hnone]
    exact iff_of_false nofun fun h => hall h.2.2.1

/-- **What is put together** from chunks of one document.  A document of one chunk is taken as it
comes. -/
lemma reassemble_iff (hf : ChunksOf doc unit total f) (hsize : doc.length < 2 ^ 64)
    (hlt : ∀ j ∈ i :: indexes, j < total) (hnodup : (i :: indexes).Nodup) (bytes : Bytes) :
    reassemble (f i) ((i :: indexes).map f) = some bytes ↔
      (∀ j < total, j ∈ i :: indexes) ∧ bytes = doc.take (total.toNat * unit) ∧
        (total = 1 ∨ total ≤ 4096 ∧ doc.length ≤ 64 * 1024 * 1024 ∧
          doc.length ≤ total.toNat * unit) := by
  by_cases htotal : total = 1
  · subst htotal
    have hzero : ∀ j ∈ i :: indexes, j = 0 := fun j hj => UInt32.lt_one_iff.mp (hlt j hj)
    obtain rfl : i = 0 := hzero i mem_cons_self
    obtain rfl : indexes = [] := by
      refine eq_nil_iff_forall_not_mem.mpr fun j hj => ?_
      exact (nodup_cons.mp hnodup).1 (hzero j (mem_cons_of_mem _ hj) ▸ hj)
    have hall : ∀ j < (1 : UInt32), j ∈ [(0 : UInt32)] := fun j hj =>
      mem_singleton.mpr (UInt32.lt_one_iff.mp hj)
    have hone : reassemble (f 0) ([0].map f) = some (doc.take (UInt32.toNat 1 * unit)) := by
      rw [reassemble, hf.chunkTotal, hf.encodedDoc]
      simp
    rw [hone, Option.some_inj]
    exact ⟨fun h => ⟨hall, h.symm, Or.inl rfl⟩, fun h => h.2.1.symm⟩
  · rw [reassemble_striped hf hsize htotal hlt hnodup ⟨hf.chunkTotal i, hf.docSizeBytes i⟩]
    constructor
    · rintro ⟨hbound, hcap, hall, hcover, rfl⟩
      exact ⟨hall, (take_of_length_le hcover).symm, Or.inr ⟨hbound, hcap, hcover⟩⟩
    · rintro ⟨hall, rfl, hone | ⟨hbound, hcap, hcover⟩⟩
      · exact absurd hone htotal
      · exact ⟨hbound, hcap, hall, hcover, take_of_length_le hcover⟩

end Chunks

/-! ## Holders -/

section Holders

variable {c : Crypto} {owner docKeyHash self : Bytes} {candidates candidates' : List Bytes}
  {maxHolders total : UInt32}

lemma distinct_holderPlace (h : candidates.Nodup) :
    Distinct (holderPlace c owner docKeyHash) candidates := by
  refine h.map fun a b hab => ?_
  exact congrArg (fun place => (ofLex place).2) hab

/-- Nodes with the same view of the members have the same ranking. -/
lemma rankedHolders_congr (h : candidates.Nodup) (hperm : candidates'.Perm candidates) :
    rankedHolders c owner docKeyHash candidates' = rankedHolders c owner docKeyHash candidates := by
  have hfilter := hperm.filter fun candidate => decide (candidate ≠ [])
  have hnodup := h.filter fun candidate => decide (candidate ≠ [])
  refine List.Pairwise.eq_of_mem_iff
    (sortBy_pairwise_lt (distinct_holderPlace (hfilter.nodup_iff.mpr hnodup)))
    (sortBy_pairwise_lt (distinct_holderPlace hnodup)) fun x => ?_
  exact mem_sortBy.trans (hfilter.mem_iff.trans mem_sortBy.symm)

lemma selectTransitHolders_congr (h : candidates.Nodup) (hperm : candidates'.Perm candidates)
    (i : UInt32) : selectTransitHolders c owner docKeyHash candidates' maxHolders i =
      selectTransitHolders c owner docKeyHash candidates maxHolders i := by
  have hnil : candidates' = [] ↔ candidates = [] := by
    rw [← length_eq_zero_iff, hperm.length_eq, length_eq_zero_iff]
  unfold selectTransitHolders
  simp only [rankedHolders_congr h hperm, hnil]

/-- The node is a holder of every chunk. -/
def HoldsAll (c : Crypto) (owner docKeyHash : Bytes) (candidates : List Bytes)
    (maxHolders total : UInt32) (x : Bytes) : Prop :=
  ∀ i < total, x ∈ selectTransitHolders c owner docKeyHash candidates maxHolders i

end Holders

namespace NodeEngine

variable {c : Crypto} {e : NodeEngine} {env : WriteEnv} {collection key doc : Bytes}

lemma nodeId_writeMerged {remote : CrdtValue} :
    (e.writeMerged c env collection key remote).2.nodeId = e.nodeId := by
  obtain ⟨_, _, _, _, _, h, -⟩ := e.writeMerged_eq c env collection key remote
  rw [h]

variable {appended : Except Status Unit}

lemma nodeId_mergeRemote {who : Requestor} :
    (e.mergeRemote c env appended collection key doc who).2.nodeId = e.nodeId := by
  unfold mergeRemote
  split_ifs
  · rfl
  · cases TransitEnvelope.decode doc <;> rfl
  · rfl
  · cases CrdtValue.decode doc with
    | error what => rfl
    | ok remote =>
      dsimp only
      obtain ⟨clock, -, ⟨st, heq⟩ | heq⟩ := e.mergeDecoded_cases c env collection key remote
      · rw [heq]
      · rw [heq]
        exact nodeId_writeMerged

lemma nodeId_applyClaimedTransit {claim : ClaimEnv} :
    (e.applyClaimedTransit c env claim appended collection key doc).2.nodeId = e.nodeId := by
  have hmerge : (e.mergeRemote c env appended collection key doc { nodeId := e.nodeId }).2.nodeId =
    e.nodeId := nodeId_mergeRemote
  unfold applyClaimedTransit
  rcases hcase : e.mergeRemote c env appended collection key doc { nodeId := e.nodeId } with
    ⟨failure | _, e'⟩ <;> rw [hcase] at hmerge
  · exact hmerge
  · dsimp only
    split
    · exact hmerge
    · rw [nodeId_persistClockIfDue]
      exact hmerge

end NodeEngine

/-! ## The premises of a claim -/

/-- A document that is held in chunks. -/
structure Held where
  collection : Bytes
  key : Bytes
  doc : Bytes
  /-- `transit_chunk_bytes`. -/
  chunkBytes : UInt32

/-- The number of chunks. -/
def Held.total (d : Held) : UInt32 := transitChunkCount d.doc.length d.chunkBytes

/-- The size of a chunk. -/
def Held.unit (d : Held) : ℕ := transitChunkUnit d.chunkBytes

lemma Held.total_ne_zero (d : Held) : d.total ≠ 0 := by
  unfold Held.total transitChunkCount
  dsimp only
  split_ifs with h
  · decide
  · exact h

/-- A chunk as its holder serves it. -/
def heldEntry (c : Crypto) (holder : NodeEngine) (owner : Bytes) (d : Held) (lsn : UInt32 → Int64)
    (i : UInt32) : TransitEntry :=
  NetworkManager.transitEntry
    { holder.chunkEnvelope c owner d.collection d.key d.doc [] d.total i with intentLsn := lsn i }

lemma heldEntry_chunksOf {c : Crypto} {holder : NodeEngine} {owner : Bytes} {d : Held}
    {lsn : UInt32 → Int64} (h : holder.transitChunkBytes = d.chunkBytes) :
    ChunksOf d.doc d.unit d.total (heldEntry c holder owner d lsn) where
  chunkTotal _ := rfl
  docSizeBytes _ := rfl
  chunkIndex _ := rfl
  encodedDoc i := by
    change NodeEngine.chunkBytes (transitChunkUnit holder.transitChunkBytes) d.doc i = _
    rw [h]
    rfl

/-- The chunks fit on one page, and their number and size are within the caps of the claim. -/
def Held.Claimable (d : Held) : Prop :=
  d.total.toNat ≤ NetworkManager.kMaxEntriesPerResponse ∧
    (d.total = 1 ∨ d.doc.length ≤ 64 * 1024 * 1024 ∧ d.doc.length ≤ d.total.toNat * d.unit)

/-- What is merged when all chunks are there. -/
def Held.merged (d : Held) : Bytes × Bytes × Bytes :=
  (d.collection, d.key, d.doc.take (d.total.toNat * d.unit))

namespace NetworkManager

/-- **The premises.**  The nodes share one view of the members; every member has stored the chunks
it is designated for, and nothing else for this owner; they are reachable, and the owner has their
keys from a handshake.  Other peers hold nothing. -/
structure Striped (c : Crypto) (ctx : ClaimContext) (answer : TransitAnswer) (e : NodeEngine)
    (d : Held) (holders : Bytes → NodeEngine) (views : Bytes → List MeshPeer) (nowMs : Int64) :
    Prop where
  distinct : (ctx.peers.map (·.nodeId)).Nodup
  named : [] ∉ holderCandidates e.nodeId ctx.peers
  view : ∀ h ∈ holderCandidates e.nodeId ctx.peers,
    (activeCandidates h e.nodeId (views h)).Perm (holderCandidates e.nodeId ctx.peers)
  chunkBytes : ∀ h ∈ holderCandidates e.nodeId ctx.peers,
    (holders h).transitChunkBytes = d.chunkBytes
  stored : ∀ h ∈ holderCandidates e.nodeId ctx.peers, ∃ lsn,
    (pendingFrom (holders h) nowMs e.nodeId 0).map transitEntry =
      (assignedChunks c h e.nodeId (ledgerKeyHash c d.collection d.key)
        (activeCandidates h e.nodeId (views h)) (transitMaxHolders ctx.maxHolders) d.total).map
        (heldEntry c (holders h) e.nodeId d lsn)
  reachable : ∀ peer ∈ ctx.peers, peer.nodeId ∈ holderCandidates e.nodeId ctx.peers →
    answer peer 0 = (transitResponse (holders peer.nodeId) nowMs e.nodeId 0).received
  proven : ∀ peer ∈ ctx.peers, peer.nodeId ∈ holderCandidates e.nodeId ctx.peers →
    peer.handshakeProven = true ∧ peer.pubkey ≠ [] ∧ ∀ message,
      (holders peer.nodeId).sign message ≠ [] ∧
        ctx.verify peer.pubkey message ((holders peer.nodeId).sign message) = true
  others : ∀ peer ∈ ctx.peers, peer.nodeId ∉ holderCandidates e.nodeId ctx.peers →
    ∀ response, answer peer 0 = some response → response.entries = []
  size : d.doc.length < 2 ^ 64

variable {c : Crypto} {ctx : ClaimContext} {answer : TransitAnswer} {e : NodeEngine} {d : Held}
  {holders : Bytes → NodeEngine} {views : Bytes → List MeshPeer} {nowMs : Int64}

/-- The node is designated for every chunk, and its answer comes through. -/
def Delivers (c : Crypto) (ctx : ClaimContext) (e : NodeEngine) (d : Held)
    (holders : Bytes → NodeEngine) (nowMs : Int64) (h : Bytes) : Prop :=
  HoldsAll c e.nodeId (ledgerKeyHash c d.collection d.key) (holderCandidates e.nodeId ctx.peers)
      (transitMaxHolders ctx.maxHolders) d.total h ∧
    (transitResponse (holders h) nowMs e.nodeId 0).received ≠ none

/-- The indexes of the chunks a node serves on its first page. -/
def served (c : Crypto) (ctx : ClaimContext) (e : NodeEngine) (d : Held) (h : Bytes) :
    List UInt32 :=
  (assignedChunks c h e.nodeId (ledgerKeyHash c d.collection d.key)
    (holderCandidates e.nodeId ctx.peers) (transitMaxHolders ctx.maxHolders) d.total).take
    kMaxEntriesPerResponse

/-! ## One answer -/

lemma nodup_range_map (total : UInt32) : ((List.range total.toNat).map UInt32.ofNat).Nodup := by
  refine List.Nodup.map_on (fun i hi j hj hij => ?_) nodup_range
  rw [← toNat_ofNat_of_lt (mem_range.mp hi), hij, toNat_ofNat_of_lt (mem_range.mp hj)]

variable {i : UInt32}

lemma mem_range_map {total : UInt32} :
    i ∈ (List.range total.toNat).map UInt32.ofNat ↔ i < total := by
  rw [mem_map, UInt32.lt_iff_toNat_lt]
  constructor
  · rintro ⟨j, hj, rfl⟩
    rw [toNat_ofNat_of_lt (mem_range.mp hj)]
    exact mem_range.mp hj
  · intro hi
    exact ⟨i.toNat, mem_range.mpr hi, UInt32.ofNat_toNat⟩

variable {h : Bytes}

lemma nodup_served : (served c ctx e d h).Nodup :=
  ((nodup_range_map _).filter _).sublist (take_sublist _ _)

lemma mem_served (hi : i ∈ served c ctx e d h) :
    i < d.total ∧ h ∈ selectTransitHolders c e.nodeId (ledgerKeyHash c d.collection d.key)
      (holderCandidates e.nodeId ctx.peers) (transitMaxHolders ctx.maxHolders) i := by
  obtain ⟨hrange, hholder⟩ := mem_filter.mp (mem_of_mem_take hi)
  exact ⟨mem_range_map.mp hrange, of_decide_eq_true hholder⟩

/-- All chunks are on the first page exactly if the node is designated for all of them and the page
has room. -/
lemma served_all_iff : (∀ i < d.total, i ∈ served c ctx e d h) ↔
    HoldsAll c e.nodeId (ledgerKeyHash c d.collection d.key) (holderCandidates e.nodeId ctx.peers)
      (transitMaxHolders ctx.maxHolders) d.total h ∧ d.total.toNat ≤ kMaxEntriesPerResponse := by
  constructor
  · intro hall
    refine ⟨fun i hi => (mem_served (hall i hi)).2, ?_⟩
    have hsub : (List.range d.total.toNat).map UInt32.ofNat ⊆ served c ctx e d h :=
      fun i hi => hall i (mem_range_map.mp hi)
    have hlen := ((nodup_range_map d.total).subperm hsub).length_le
    rw [length_map, length_range] at hlen
    exact hlen.trans (length_take_le _ _)
  · rintro ⟨hholds, hroom⟩ i hi
    have hwhole : assignedChunks c h e.nodeId (ledgerKeyHash c d.collection d.key)
        (holderCandidates e.nodeId ctx.peers) (transitMaxHolders ctx.maxHolders) d.total =
          (List.range d.total.toNat).map UInt32.ofNat :=
      filter_eq_self.mpr fun j hj => decide_eq_true (hholds j (mem_range_map.mp hj))
    rw [served, hwhole, take_of_length_le (by simpa using hroom)]
    exact mem_range_map.mpr hi

/-- The entries that arrive from a member. -/
lemma Striped.entries (hs : Striped c ctx answer e d holders views nowMs)
    (hh : h ∈ holderCandidates e.nodeId ctx.peers) : ∃ lsn, ∀ response,
      (transitResponse (holders h) nowMs e.nodeId 0).received = some response →
        response.entries = (served c ctx e d h).map (heldEntry c (holders h) e.nodeId d lsn) := by
  have hmembers : (holderCandidates e.nodeId ctx.peers).Nodup :=
    hs.distinct.sublist (filter_sublist.map _)
  obtain ⟨lsn, hstored⟩ := hs.stored h hh
  refine ⟨lsn, fun response hresponse => ?_⟩
  have hsent : (transitResponse (holders h) nowMs e.nodeId 0).entries =
      (served c ctx e d h).map (heldEntry c (holders h) e.nodeId d lsn) := by
    change ((pendingFrom (holders h) nowMs e.nodeId 0).take kMaxEntriesPerResponse).map
      transitEntry = _
    rw [map_take, hstored, served, map_take]
    unfold assignedChunks
    simp only [selectTransitHolders_congr hmembers (hs.view h hh)]
  unfold TransitResponsePayload.received at hresponse
  dsimp only at hresponse
  split_ifs at hresponse
  obtain rfl := Option.some_inj.mp hresponse
  rw [hsent, map_map]
  refine map_congr_left fun i _ => ?_
  exact if_neg d.total_ne_zero

lemma sha256_ne_nil (c : Crypto) (m : Bytes) : c.sha256 m ≠ [] := by
  intro hnil
  have hlen := c.length_sha256 m
  rw [hnil] at hlen
  cases hlen

variable {peer : MeshPeer}

/-- The chunks of a member pass the checks. -/
lemma Striped.accepts (hs : Striped c ctx answer e d holders views nowMs) (hpeer : peer ∈ ctx.peers)
    (hmember : peer.nodeId ∈ holderCandidates e.nodeId ctx.peers)
    (hi : i ∈ served c ctx e d peer.nodeId) (lsn : UInt32 → Int64) :
    acceptsEntry c ctx e.nodeId peer.nodeId peer.pubkey []
      (heldEntry c (holders peer.nodeId) e.nodeId d lsn i) = true := by
  obtain ⟨-, hkey, hsign⟩ := hs.proven peer hpeer hmember
  have hholder := (mem_served hi).2
  have hverify : verifyTransitEntry c ctx.verify
      (heldEntry c (holders peer.nodeId) e.nodeId d lsn i) peer.pubkey = true := by
    have hhash : ¬ (ledgerKeyHash c d.collection d.key ≠
          NodeEngine.chunkKeyHash c d.collection d.key d.total i ∧
        transitChunkKeyHash c (ledgerKeyHash c d.collection d.key) i ≠
          NodeEngine.chunkKeyHash c d.collection d.key d.total i) := by
      unfold NodeEngine.chunkKeyHash
      split_ifs <;> simp
    obtain ⟨hsigned, hvalid⟩ := hsign (transitAttestMessage
      (NodeEngine.chunkKeyHash c d.collection d.key d.total i)
      (c.sha256 (NodeEngine.chunkBytes
        (transitChunkUnit (holders peer.nodeId).transitChunkBytes) d.doc i)) i d.total)
    refine (if_neg hhash).trans ((if_neg ?_).trans ((if_neg ?_).trans ((if_neg hkey).trans hvalid)))
    · exact not_or.mpr ⟨sha256_ne_nil c _, hsigned⟩
    · exact not_not.mpr rfl
  unfold acceptsEntry
  rw [hverify, reverse_nil, find?_nil, Bool.and_true]
  exact decide_eq_true hholder

variable {entries : List TransitEntry}

/-- Entries of one document are one group. -/
lemma byDoc_of_eq {k : Bytes} (hne : entries ≠ []) (hk : ∀ entry ∈ entries, docKey entry = k) :
    byDoc entries = [entries] := by
  have hkeys : (sortBy id (entries.map docKey)).dedup = [k] := by
    have hall : ∀ x ∈ sortBy id (entries.map docKey), x = k := by
      intro x hx
      obtain ⟨entry, hentry, rfl⟩ := mem_map.mp (mem_sortBy.mp hx)
      exact hk entry hentry
    have hlen : 0 < (sortBy id (entries.map docKey)).length := by
      rw [length_sortBy, length_map]
      exact length_pos_iff.mpr hne
    rw [eq_replicate_of_mem hall]
    exact replicate_dedup (Nat.pos_iff_ne_zero.mp hlen)
  rw [byDoc, hkeys, map_singleton]
  congr 1
  exact filter_eq_self.mpr fun entry hentry => decide_eq_true (hk entry hentry)

/-! ## What a pass keeps -/

lemma applyDocs_keeps (docs : List (List TransitEntry)) (s : ClaimPass) (claim : List Bytes) :
    (applyDocs c ctx s claim docs).2.intents = s.intents ∧
      (applyDocs c ctx s claim docs).2.engine.nodeId = s.engine.nodeId := by
  induction docs generalizing s claim with
  | nil => exact ⟨rfl, rfl⟩
  | cons chunks docs ih =>
    cases chunks with
    | nil => exact ih s claim
    | cons first rest =>
      rw [applyDocs]
      cases reassemble first (first :: rest) with
      | none => exact ih _ claim
      | some bytes =>
        have hid : (s.engine.applyClaimedTransit c (ctx.apply s.applied.length).write
            (ctx.apply s.applied.length).claim (ctx.apply s.applied.length).appended
            first.collection first.key bytes).2.nodeId = s.engine.nodeId :=
          NodeEngine.nodeId_applyClaimedTransit
        dsimp only
        rcases hcase : s.engine.applyClaimedTransit c (ctx.apply s.applied.length).write
          (ctx.apply s.applied.length).claim (ctx.apply s.applied.length).appended
          first.collection first.key bytes with ⟨(st | _) | _, engine⟩ <;> rw [hcase] at hid
        · exact ⟨(ih _ claim).1, (ih _ claim).2.trans hid⟩
        · exact ⟨rfl, hid⟩
        · exact ⟨(ih _ _).1, (ih _ _).2.trans hid⟩

variable (c ctx answer)

lemma applyHolderEntries_keeps (s : ClaimPass) (holder : Bytes) (entries : List TransitEntry) :
    s.intents <+: (applyHolderEntries c ctx s holder entries).2.intents ∧
      (applyHolderEntries c ctx s holder entries).2.engine.nodeId = s.engine.nodeId := by
  unfold applyHolderEntries
  dsimp only
  split_ifs
  · exact ⟨prefix_refl _, rfl⟩
  · obtain ⟨hintents, hid⟩ := applyDocs_keeps (byDoc (entries.filter (acceptsEntry c ctx
      s.engine.nodeId holder _ (transitIntentsForSelf c s.engine)))) _ []
    rw [hintents, hid]
    exact ⟨prefix_append _ _, rfl⟩

lemma intents_claimPages (peer : MeshPeer) (fuel : ℕ) (offset : UInt64) (s : ClaimPass) :
    s.intents <+: (claimPages c ctx answer peer fuel offset s).2.intents := by
  induction fuel generalizing offset s with
  | zero => exact prefix_refl _
  | succ fuel ih =>
    rw [claimPages]
    cases answer peer offset with
    | none => exact prefix_refl _
    | some response =>
      dsimp only
      by_cases hempty : response.entries = []
      · rw [if_pos hempty]
      · rw [if_neg hempty]
        have hkeep := (applyHolderEntries_keeps c ctx { s with peersAsked := s.peersAsked + 1 }
          peer.nodeId response.entries).1
        rcases hcase : applyHolderEntries c ctx { s with peersAsked := s.peersAsked + 1 }
          peer.nodeId response.entries with ⟨failure | claim, s'⟩ <;> rw [hcase] at hkeep
        · exact hkeep
        · refine hkeep.trans ?_
          dsimp only
          split_ifs
          · exact prefix_refl _
          · exact prefix_refl _
          · exact ih response.nextOffset { s' with sent := s'.sent ++ [(peer.nodeId, claim)] }
          · exact ih response.nextOffset s'

lemma intents_claimTargeted (fuel : ℕ) (named : List Bytes) (s : ClaimPass) :
    s.intents <+: (claimTargeted c ctx answer fuel s named).2.intents := by
  induction named generalizing s with
  | nil => exact prefix_refl _
  | cons holder named ih =>
    rw [claimTargeted]
    split_ifs
    · exact ih s
    cases ctx.peers.find? fun peer => decide (peer.nodeId = holder) with
    | none => exact ih s
    | some peer =>
      dsimp only
      split_ifs
      · exact ih s
      have hkeep := intents_claimPages c ctx answer peer fuel 0 s
      rcases hcase : claimPages c ctx answer peer fuel 0 s with ⟨failure | _, s'⟩ <;>
        rw [hcase] at hkeep
      · exact hkeep
      · exact hkeep.trans (ih s')

/-- The intents of a pass are never forgotten. -/
lemma intents_claimSweep (queried : List Bytes) (peers : List MeshPeer) (s : ClaimPass) :
    s.intents <+: (claimSweep c ctx answer queried s peers).2.intents := by
  induction peers generalizing s with
  | nil => exact prefix_refl _
  | cons peer peers ih =>
    rw [claimSweep]
    split_ifs
    · exact ih s
    · cases answer peer 0 with
      | none => exact ih { s with peersAsked := s.peersAsked + 1, failures := s.failures + 1 }
      | some response =>
        dsimp only
        split_ifs
        · exact ih { s with peersAsked := s.peersAsked + 1 }
        · have hkeep := (applyHolderEntries_keeps c ctx { s with peersAsked := s.peersAsked + 1 }
            peer.nodeId response.entries).1
          rcases hcase : applyHolderEntries c ctx { s with peersAsked := s.peersAsked + 1 }
            peer.nodeId response.entries with ⟨failure | claim, s'⟩ <;> rw [hcase] at hkeep
          · exact hkeep
          · refine hkeep.trans ?_
            dsimp only
            split_ifs
            · exact ih { s' with sent := s'.sent ++ [(peer.nodeId, claim)] }
            · exact ih s'

variable {c ctx answer}

/-! ## The pass -/

/-- One group of chunks. -/
lemma applied_applyDocs_single (s : ClaimPass) (claim : List Bytes) (first : TransitEntry)
    (rest : List TransitEntry) :
    (applyDocs c ctx s claim [first :: rest]).2.applied = s.applied ++
      ((reassemble first (first :: rest)).map fun bytes =>
        (first.collection, first.key, bytes)).toList := by
  rw [applyDocs]
  cases reassemble first (first :: rest) with
  | none => exact (append_nil _).symm
  | some bytes =>
    dsimp only
    rcases s.engine.applyClaimedTransit c (ctx.apply s.applied.length).write
      (ctx.apply s.applied.length).claim (ctx.apply s.applied.length).appended
      first.collection first.key bytes with ⟨(st | _) | _, engine⟩ <;> rfl

open Classical in
/-- What the answer of a peer contributes. -/
noncomputable def contribution (c : Crypto) (ctx : ClaimContext) (e : NodeEngine) (d : Held)
    (holders : Bytes → NodeEngine) (nowMs : Int64) (peer : MeshPeer) :
    List (Bytes × Bytes × Bytes) :=
  if d.Claimable ∧ peer.nodeId ∈ holderCandidates e.nodeId ctx.peers ∧
      Delivers c ctx e d holders nowMs peer.nodeId then [d.merged] else []

/-- A node that delivers a claimable document serves all chunks. -/
lemma Delivers.served_all (hd : d.Claimable) (hh : Delivers c ctx e d holders nowMs h) :
    ∀ i < d.total, i ∈ served c ctx e d h :=
  served_all_iff.mpr ⟨hh.1, hd.1⟩

variable {peers : List MeshPeer}

/-- The peer of an id. -/
lemma find?_peer (hdistinct : (peers.map (·.nodeId)).Nodup) (hpeer : peer ∈ peers) :
    peers.find? (fun p => decide (p.nodeId = peer.nodeId)) = some peer := by
  cases hfind : peers.find? fun p => decide (p.nodeId = peer.nodeId) with
  | none =>
    have hnot := find?_eq_none.mp hfind peer hpeer
    exact absurd (decide_eq_true rfl) hnot
  | some found =>
    have hid : found.nodeId = peer.nodeId := by simpa using find?_some hfind
    rw [inj_on_of_nodup_map hdistinct (mem_of_find?_eq_some hfind) hpeer hid]

variable {s : ClaimPass}

/-- The entries of a peer whose key is known. -/
lemma applyHolderEntries_of_proven
    (hfind : ctx.peers.find? (fun p => decide (p.nodeId = peer.nodeId)) = some peer)
    (hproven : peer.handshakeProven = true) (hkey : peer.pubkey ≠ [])
    (hintents : transitIntentsForSelf c s.engine = [])
    (hall : entries.filter (acceptsEntry c ctx s.engine.nodeId peer.nodeId peer.pubkey []) =
      entries) :
    applyHolderEntries c ctx s peer.nodeId entries = applyDocs c ctx s [] (byDoc entries) := by
  unfold applyHolderEntries
  simp only [hfind, hproven, hkey, hintents, hall, if_true, if_false, append_nil,
    Nat.sub_self, Nat.add_zero]

/-- The intents that were read for the entries of a peer whose key is known. -/
lemma intents_applyHolderEntries
    (hfind : ctx.peers.find? (fun p => decide (p.nodeId = peer.nodeId)) = some peer)
    (hproven : peer.handshakeProven = true) (hkey : peer.pubkey ≠ []) :
    (applyHolderEntries c ctx s peer.nodeId entries).2.intents =
      s.intents ++ transitIntentsForSelf c s.engine := by
  unfold applyHolderEntries
  simp only [hfind, hproven, hkey, if_true, if_false]
  exact (applyDocs_keeps _ _ _).1

/-- **The answer of a member** makes one merge if it has all chunks, and none otherwise. -/
lemma Striped.applied_member (hs : Striped c ctx answer e d holders views nowMs)
    (hpeer : peer ∈ ctx.peers) (hmember : peer.nodeId ∈ holderCandidates e.nodeId ctx.peers)
    (hid : s.engine.nodeId = e.nodeId) (hintents : transitIntentsForSelf c s.engine = [])
    {response : TransitResponsePayload}
    (hresponse : (transitResponse (holders peer.nodeId) nowMs e.nodeId 0).received = some response)
    (hne : response.entries ≠ []) :
    (applyHolderEntries c ctx s peer.nodeId response.entries).2.applied =
      s.applied ++ contribution c ctx e d holders nowMs peer := by
  obtain ⟨lsn, hentries⟩ := hs.entries hmember
  replace hentries := hentries response hresponse
  have hchunks : ChunksOf d.doc d.unit d.total (heldEntry c (holders peer.nodeId) e.nodeId d lsn) :=
    heldEntry_chunksOf (hs.chunkBytes _ hmember)
  obtain ⟨hproven, hkey, -⟩ := hs.proven peer hpeer hmember
  have haccepted : response.entries.filter
      (acceptsEntry c ctx s.engine.nodeId peer.nodeId peer.pubkey []) = response.entries := by
    rw [hentries, hid]
    refine filter_eq_self.mpr fun entry hentry => ?_
    obtain ⟨i, hi, rfl⟩ := mem_map.mp hentry
    exact hs.accepts hpeer hmember hi lsn
  have hdoc : byDoc response.entries = [response.entries] := by
    refine byDoc_of_eq hne (k := d.collection ++ 0 :: d.key) fun entry hentry => ?_
    rw [hentries] at hentry
    obtain ⟨i, -, rfl⟩ := mem_map.mp hentry
    rfl
  rw [applyHolderEntries_of_proven (find?_peer hs.distinct hpeer) hproven hkey hintents haccepted,
    hdoc, hentries]
  have hnodup : (served c ctx e d peer.nodeId).Nodup := nodup_served
  have hlt : ∀ i ∈ served c ctx e d peer.nodeId, i < d.total := fun i hi => (mem_served hi).1
  have hall : (∀ i < d.total, i ∈ served c ctx e d peer.nodeId) ↔ _ := served_all_iff
  cases hserved : served c ctx e d peer.nodeId with
  | nil => exact absurd (by rw [hentries, hserved]; rfl) hne
  | cons i indexes =>
    rw [hserved] at hnodup hlt hall
    rw [map_cons, applied_applyDocs_single, ← map_cons]
    have hbytes := reassemble_iff hchunks hs.size hlt hnodup
    unfold contribution
    split_ifs with hcond
    · obtain ⟨⟨hroom, hcaps⟩, -, hholds, -⟩ := hcond
      have hcaps' : d.total = 1 ∨ d.total ≤ 4096 ∧ d.doc.length ≤ 64 * 1024 * 1024 ∧
          d.doc.length ≤ d.total.toNat * d.unit :=
        hcaps.imp_right fun h => ⟨UInt32.le_iff_toNat_le.mpr (hroom.trans (by decide)), h⟩
      rw [(hbytes _).mpr ⟨hall.mpr ⟨hholds, hroom⟩, rfl, hcaps'⟩]
      rfl
    · have hnone : reassemble (heldEntry c (holders peer.nodeId) e.nodeId d lsn i)
          ((i :: indexes).map (heldEntry c (holders peer.nodeId) e.nodeId d lsn)) = none := by
        refine Option.eq_none_iff_forall_ne_some.mpr fun bytes h => hcond ?_
        obtain ⟨hevery, -, hcaps⟩ := (hbytes bytes).mp h
        obtain ⟨hholds, hroom⟩ := hall.mp hevery
        refine ⟨⟨hroom, hcaps.imp_right fun h => h.2⟩, hmember, hholds, ?_⟩
        rw [hresponse]
        exact Option.some_ne_none _
      rw [hnone]
      rfl

lemma mem_holderCandidates {self : Bytes} (hdistinct : (peers.map (·.nodeId)).Nodup)
    (hpeer : peer ∈ peers) (h : peer.nodeId ∈ holderCandidates self peers) :
    peer.nodeId ≠ self ∧ peer.p2pPort ≠ 0 := by
  obtain ⟨candidate, hcandidate, hid⟩ := mem_map.mp h
  obtain ⟨hmem, hpass⟩ := mem_filter.mp hcandidate
  obtain rfl := inj_on_of_nodup_map hdistinct hmem hpeer hid
  simp only [Bool.and_eq_true, decide_eq_true_eq] at hpass
  exact ⟨hpass.1.1.1.1.1, hpass.1.1.1.1.2⟩

/-- A peer that does not answer, or answers without entries, contributes nothing. -/
lemma Striped.contribution_nil (hs : Striped c ctx answer e d holders views nowMs)
    (hpeer : peer ∈ ctx.peers)
    (h : ∀ response, answer peer 0 = some response → response.entries = []) :
    contribution c ctx e d holders nowMs peer = [] := by
  refine if_neg ?_
  rintro ⟨hclaimable, hmember, hdelivers⟩
  obtain ⟨lsn, hentries⟩ := hs.entries hmember
  obtain ⟨response, hresponse⟩ := Option.ne_none_iff_exists'.mp hdelivers.2
  have hempty := h response ((hs.reachable peer hpeer hmember).trans hresponse)
  rw [hentries response hresponse, map_eq_nil_iff] at hempty
  have hfirst := hdelivers.served_all hclaimable 0 (UInt32.pos_iff_ne_zero.mpr d.total_ne_zero)
  rw [hempty] at hfirst
  exact not_mem_nil hfirst

/-- **The sweep** merges once for each member that delivers. -/
lemma Striped.applied_claimSweep (hs : Striped c ctx answer e d holders views nowMs)
    (hpeers : peers ⊆ ctx.peers) (hid : s.engine.nodeId = e.nodeId)
    (hok : (claimSweep c ctx answer [] s peers).1 = .ok ())
    (hintents : (claimSweep c ctx answer [] s peers).2.intents = []) :
    (claimSweep c ctx answer [] s peers).2.applied =
      s.applied ++ peers.flatMap (contribution c ctx e d holders nowMs) := by
  induction peers generalizing s with
  | nil => exact (append_nil _).symm
  | cons peer peers ih =>
    obtain ⟨hpeer, hrest⟩ := cons_subset.mp hpeers
    rw [flatMap_cons]
    rw [claimSweep] at hok hintents ⊢
    split_ifs at hok hintents ⊢ with hskip
    · have hnil : contribution c ctx e d holders nowMs peer = [] := by
        refine if_neg fun hcond => ?_
        obtain ⟨hself, hport⟩ := mem_holderCandidates hs.distinct hpeer hcond.2.1
        rw [hid] at hskip
        rcases hskip with h | h | h
        · exact hport h
        · exact hself h
        · exact not_mem_nil h
      rw [hnil]
      exact ih hrest hid hok hintents
    cases hanswer : answer peer 0 with
    | none =>
      rw [hanswer] at hok hintents
      have hnil := hs.contribution_nil hpeer fun response h => nomatch hanswer.symm.trans h
      rw [hnil]
      exact ih hrest
        hid hok hintents
    | some response =>
      rw [hanswer] at hok hintents
      dsimp only at hok hintents ⊢
      split_ifs at hok hintents ⊢ with hempty
      · have hnil := hs.contribution_nil hpeer fun other h => by
          rw [← Option.some_inj.mp (hanswer.symm.trans h)]
          exact hempty
        rw [hnil, nil_append]
        exact ih hrest hid hok hintents
      have hmember : peer.nodeId ∈ holderCandidates e.nodeId ctx.peers := by
        by_contra hnot
        exact hempty (hs.others peer hpeer hnot response hanswer)
      obtain ⟨hproven, hkey, -⟩ := hs.proven peer hpeer hmember
      have hread : (applyHolderEntries c ctx { s with peersAsked := s.peersAsked + 1 } peer.nodeId
          response.entries).2.intents = s.intents ++ transitIntentsForSelf c s.engine :=
        intents_applyHolderEntries
          (find?_peer hs.distinct hpeer) hproven hkey
      have happlied : transitIntentsForSelf c s.engine = [] →
          (applyHolderEntries c ctx { s with peersAsked := s.peersAsked + 1 } peer.nodeId
            response.entries).2.applied =
              s.applied ++ contribution c ctx e d holders nowMs peer := fun hnone =>
        hs.applied_member (s := { s with peersAsked := s.peersAsked + 1 }) hpeer hmember hid hnone
          ((hs.reachable peer hpeer hmember).symm.trans hanswer) hempty
      have hnode := (applyHolderEntries_keeps c ctx { s with peersAsked := s.peersAsked + 1 }
        peer.nodeId response.entries).2
      rcases hcase : applyHolderEntries c ctx { s with peersAsked := s.peersAsked + 1 } peer.nodeId
        response.entries with ⟨failure | claim, s'⟩ <;>
        rw [hcase] at hok hintents hread happlied hnode
      · cases hok
      dsimp only at hok hintents hread happlied hnode ⊢
      -- The claim is sent or not; the merges are the same.
      obtain ⟨s'', hs'', heq⟩ : ∃ s'' : ClaimPass, (s''.engine = s'.engine ∧
          s''.intents = s'.intents ∧ s''.applied = s'.applied) ∧
          (if claim ≠ [] then { s' with sent := s'.sent ++ [(peer.nodeId, claim)] } else s') =
            s'' := by
        refine ⟨_, ?_, rfl⟩
        split_ifs <;> exact ⟨rfl, rfl, rfl⟩
      rw [heq] at hok hintents ⊢
      have hprefix := intents_claimSweep c ctx answer [] peers s''
      rw [hintents, prefix_nil, hs''.2.1, hread, append_eq_nil_iff] at hprefix
      rw [ih hrest (by rw [hs''.1, hnode, hid]) hok hintents, hs''.2.2, happlied hprefix.2,
        append_assoc]

/-! ## The claim -/

/-- The pass ran to its end, every document it handed over was merged, and the node's own ledger
named it in no intent, as `HoldForOfflineOwner` writes none for the node itself. -/
structure Completed (pass : Except Failure Unit × ClaimPass) : Prop where
  ok : pass.1 = .ok ()
  merged : pass.2.documentsClaimed = pass.2.applied.length
  unnamed : pass.2.intents = []

variable {fuel : ℕ}

/-- Without intents there is only the sweep. -/
lemma claimPendingTransit_sweep
    (hintents : (claimPendingTransit c ctx answer fuel e).2.intents = []) :
    claimPendingTransit c ctx answer fuel e =
      claimSweep c ctx answer [] { engine := e } ctx.peers := by
  have hnone : transitIntentsForSelf c e = [] := by
    rw [← prefix_nil, ← hintents]
    unfold claimPendingTransit
    dsimp only
    have hkeep := intents_claimTargeted c ctx answer fuel
      (sortBy id (((transitIntentsForSelf c e).map (·.holderNode)).filter fun holder =>
        decide (holder ≠ []))).dedup { engine := e, intents := transitIntentsForSelf c e }
    rcases hcase : claimTargeted c ctx answer fuel
      { engine := e, intents := transitIntentsForSelf c e }
      (sortBy id (((transitIntentsForSelf c e).map (·.holderNode)).filter fun holder =>
        decide (holder ≠ []))).dedup with ⟨failure | _, s⟩ <;> rw [hcase] at hkeep ⊢
    · exact hkeep
    · exact hkeep.trans (intents_claimSweep c ctx answer _ _ _)
  unfold claimPendingTransit
  rw [hnone]
  rfl

/-- One value for each member of a list with a property. -/
lemma flatMap_ite_eq_singleton_iff {α β : Type*} {l : List α} (hl : l.Nodup) {P : α → Prop}
    [DecidablePred P] {m x : β} :
    (l.flatMap fun a => if P a then [m] else []) = [x] ↔ x = m ∧ ∃! a, a ∈ l ∧ P a := by
  have hmap : (l.flatMap fun a => if P a then [m] else []) = (l.filter P).map fun _ => m := by
    induction l with
    | nil => rfl
    | cons a l ih =>
      rw [filter_cons]
      split_ifs <;> simp_all
  rw [hmap, map_eq_singleton_iff]
  constructor
  · rintro ⟨a, hfilter, rfl⟩
    have hmem : ∀ b, b ∈ l ∧ P b ↔ b = a := fun b => by
      rw [← mem_singleton, ← hfilter, mem_filter, decide_eq_true_eq]
    exact ⟨rfl, a, (hmem a).mpr rfl, fun b hb => (hmem b).mp hb⟩
  · rintro ⟨rfl, a, ha, hunique⟩
    refine ⟨a, perm_singleton.mp ?_, rfl⟩
    refine (perm_ext_iff_of_nodup (hl.filter _) (nodup_singleton a)).mpr fun b => ?_
    rw [mem_filter, decide_eq_true_eq, mem_singleton]
    exact ⟨hunique b, fun h => h ▸ ha⟩

open Classical in
/-- A list of contributions is a single one exactly if a single peer contributes. -/
lemma flatMap_contribution_iff (hdistinct : (ctx.peers.map (·.nodeId)).Nodup)
    {x : Bytes × Bytes × Bytes} :
    ctx.peers.flatMap (contribution c ctx e d holders nowMs) = [x] ↔
      x = d.merged ∧ d.Claimable ∧ ∃! h, h ∈ holderCandidates e.nodeId ctx.peers ∧
        Delivers c ctx e d holders nowMs h := by
  have hids : ctx.peers.flatMap (contribution c ctx e d holders nowMs) =
      (ctx.peers.map (·.nodeId)).flatMap fun h =>
        if d.Claimable ∧ h ∈ holderCandidates e.nodeId ctx.peers ∧
          Delivers c ctx e d holders nowMs h then [d.merged] else [] := by
    rw [flatMap_map]
    rfl
  rw [hids, flatMap_ite_eq_singleton_iff hdistinct]
  refine and_congr_right fun _ => ?_
  have hmember : ∀ h, (h ∈ ctx.peers.map (·.nodeId) ∧ d.Claimable ∧
      h ∈ holderCandidates e.nodeId ctx.peers ∧ Delivers c ctx e d holders nowMs h) ↔
        d.Claimable ∧ h ∈ holderCandidates e.nodeId ctx.peers ∧
          Delivers c ctx e d holders nowMs h := fun h =>
    and_iff_right_of_imp fun hcond => (filter_sublist.map _).subset hcond.2.1
  simp only [hmember]
  by_cases hclaimable : d.Claimable
  · simp only [hclaimable, true_and]
  · simp only [hclaimable, false_and, iff_false]
    exact fun ⟨_, h, _⟩ => h

/-- What a completed claim merged. -/
lemma Striped.applied_iff (hs : Striped c ctx answer e d holders views nowMs)
    (hcompleted : Completed (claimPendingTransit c ctx answer fuel e)) :
    (claimPendingTransit c ctx answer fuel e).2.applied = [(d.collection, d.key, d.doc)] ↔
      d.Claimable ∧ d.doc.length ≤ d.total.toNat * d.unit ∧
        ∃! h, h ∈ holderCandidates e.nodeId ctx.peers ∧ Delivers c ctx e d holders nowMs h := by
  have hsweep := claimPendingTransit_sweep hcompleted.unnamed
  have happlied := hs.applied_claimSweep (List.Subset.refl _) rfl
    (hsweep ▸ hcompleted.ok) (hsweep ▸ hcompleted.unnamed)
  rw [hsweep, happlied, nil_append, flatMap_contribution_iff hs.distinct]
  have hwhole : (d.collection, d.key, d.doc) = d.merged ↔
      d.doc.length ≤ d.total.toNat * d.unit := by
    rw [Held.merged, Prod.mk.injEq, Prod.mk.injEq, eq_self, eq_self, true_and, true_and, eq_comm,
      take_eq_self_iff]
  rw [hwhole]
  exact and_left_comm

variable (ids : List UInt8)

/-- An owner `n` that is back, with peers of the given ids. -/
def sampleReturn : ClaimContext where
  verify _ _ _ := true
  peers := ids.map fun id => { nodeId := [id], p2pPort := 1, pubkey := [1] }
  maxHolders := 1
  apply _ := { write := { wall := 5000 }, claim := { wall := 5001 } }

/-- A holder that has stored its chunks. -/
def sampleHolder (d : Held) (h : Bytes) : NodeEngine :=
  let e := { sampleNode with nodeId := h, sign := fun _ => [1], transitChunkBytes := d.chunkBytes }
  let chunks := assignedChunks sampleCrypto h [110] (ledgerKeyHash sampleCrypto d.collection d.key)
    (activeCandidates h [110] (sampleReturn ids).peers) 1 d.total
  { e with
    transit :=
      { holderNodeId := h
        entries := chunks.map fun i =>
          let envelope := e.chunkEnvelope sampleCrypto [110] d.collection d.key d.doc [] d.total i
          (transitMapKey [110] envelope.keyHash,
            { envelope with intentLsn := Int64.ofNat i.toNat }) } }

/-- What such holders answer. -/
def sampleAnswer (d : Held) : TransitAnswer := fun peer offset =>
  (transitResponse (sampleHolder ids d peer.nodeId) 0 [110] offset).received

/-- The claim of the owner. -/
def samplePass (d : Held) : Except Failure Unit × ClaimPass :=
  claimPendingTransit sampleCrypto (sampleReturn ids) (sampleAnswer ids d) 1 sampleNode

lemma completed_of_toOption {pass : Except Failure Unit × ClaimPass}
    (hok : pass.1.toOption = some ()) (hmerged : pass.2.documentsClaimed = pass.2.applied.length)
    (hunnamed : pass.2.intents = []) : Completed pass := by
  refine ⟨?_, hmerged, hunnamed⟩
  rcases hcase : pass.1 with failure | _
  · rw [hcase] at hok
    cases hok
  · rfl

/-- The premises for such holders, as far as they depend on the ids and on the document. -/
lemma striped_sample {ids : List UInt8} {d : Held} (hdistinct : ids.Nodup)
    (hmembers : holderCandidates [110] (sampleReturn ids).peers =
      (sampleReturn ids).peers.map (·.nodeId))
    (hview : ∀ h ∈ holderCandidates [110] (sampleReturn ids).peers,
      (activeCandidates h [110] (sampleReturn ids).peers).Perm
        (holderCandidates [110] (sampleReturn ids).peers))
    (hstored : ∀ h ∈ holderCandidates [110] (sampleReturn ids).peers,
      (pendingFrom (sampleHolder ids d h) 0 [110] 0).map transitEntry =
        (assignedChunks sampleCrypto h [110] (ledgerKeyHash sampleCrypto d.collection d.key)
          (activeCandidates h [110] (sampleReturn ids).peers) 1 d.total).map
          (heldEntry sampleCrypto (sampleHolder ids d h) [110] d fun i => Int64.ofNat i.toNat))
    (hsize : d.doc.length < 2 ^ 64) :
    Striped sampleCrypto (sampleReturn ids) (sampleAnswer ids d) sampleNode d (sampleHolder ids d)
      (fun _ => (sampleReturn ids).peers) 0 where
  distinct := by
    rw [sampleReturn, map_map]
    exact hdistinct.map fun a b h => singleton_inj.mp h
  named := by
    change [] ∉ holderCandidates [110] (sampleReturn ids).peers
    rw [hmembers, sampleReturn, map_map]
    intro h
    obtain ⟨id, -, hid⟩ := mem_map.mp h
    cases hid
  view := hview
  chunkBytes _ _ := rfl
  stored h hh := ⟨_, hstored h hh⟩
  reachable _ _ _ := rfl
  proven := by
    intro peer hpeer _
    obtain ⟨id, -, rfl⟩ := mem_map.mp hpeer
    exact ⟨rfl, cons_ne_nil _ _, fun _ => ⟨cons_ne_nil _ _, rfl⟩⟩
  others := by
    intro peer hpeer hnot
    refine absurd ?_ hnot
    change peer.nodeId ∈ holderCandidates [110] (sampleReturn ids).peers
    rw [hmembers]
    exact mem_map_of_mem hpeer
  size := hsize

/-- Two bytes in two chunks. -/
def sampleHeld : Held := ⟨text "c", text "k", [7, 8], 1⟩

/-- A document of two chunks. -/
def sampleHeldDocument : Held :=
  ⟨text "c", text "k", (CrdtValue.scalar ⟨1, 0, [98]⟩ false (.int 1)).encode, 20⟩

end NetworkManager

end DeSentry
