import DeSentry.Construction.Storage.Wal

/-!
# The bodies of the ledger's records

`DecodeBody` gives back what `EncodeBody` wrote, for every record whose fields the format can
carry (`WalRecord.WellFormed`) and, for a transit intent, whose chunk numbers its own check
accepts (`WalRecord.ChunksOk`).  Every record read from a file is of that kind.

On top of that, the reader's loop body is computed on a payload `SealPayload` produced
(`readRecord_sealPayload`), in both modes, and a record is *loggable* when the reader accepts
it.  `Append` checks neither half of that: it acknowledges intents whose chunk numbers are
refused on reading, and bodies longer than the reader considers.
-/

namespace DeSentry

open ByteCodec FrameLog ByteWriter WalRecord List

namespace WalRecord

/-- The length-prefixed fields. -/
def blobs (r : WalRecord) : List Bytes :=
  [r.collection, r.key, r.documentBytes, r.keyHash, r.hlc.nodeId, r.originNodeId,
    r.originSignature, r.transitHolder]

lemma forall_blobs {r : WalRecord} {P : Bytes → Prop} : (∀ b ∈ r.blobs, P b) ↔
    P r.collection ∧ P r.key ∧ P r.documentBytes ∧ P r.keyHash ∧ P r.hlc.nodeId ∧
      P r.originNodeId ∧ P r.originSignature ∧ P r.transitHolder := by
  simp [blobs]

/-- No transit tail: the holder is unknown and the record names the whole document. -/
def Whole (r : WalRecord) : Prop :=
  r.transitHolder = [] ∧ r.transitSizeBytes = 0 ∧ r.transitChunkIndex = 0 ∧ r.transitChunkTotal = 1

/-- A record the body format can carry. -/
structure WellFormed (r : WalRecord) : Prop where
  blobs_lt : ∀ b ∈ r.blobs, b.length < 2 ^ 32
  length_prevHash : r.prevHash.length = kWalHashLen
  length_entryHash : r.entryHash.length = kWalHashLen
  /-- Only an intent has a tail. -/
  whole : r.type ≠ .kTransitIntent → r.Whole

/-- The chunk numbers `DecodeBody` accepts. -/
def ChunksOk (r : WalRecord) : Prop :=
  r.type = .kTransitIntent → r.transitChunkTotal ≠ 0 ∧ r.transitChunkIndex < r.transitChunkTotal

instance (r : WalRecord) : Decidable r.ChunksOk := inferInstanceAs (Decidable (_ → _))

lemma Whole.chunksOk {r : WalRecord} (h : r.Whole) : r.ChunksOk := by
  intro _
  rw [h.2.2.1, h.2.2.2]
  decide

end WalRecord

variable {r : WalRecord}

/-! ## Encoding, then decoding -/

lemma buildContent_eq (r : WalRecord) :
    buildContent r = u32 kWalRecordMagicV3 ++ (contentFields r ++ r.prevHash) := by
  rw [buildContent, buildContentLegacy, drop_left' (length_u32 _),
    append_assoc]

/-- The magic of a record's layout. -/
def bodyMagic (r : WalRecord) : UInt32 :=
  if r.positionBound then kWalRecordMagicV3 else kWalRecordMagicV2

/-- The bytes behind the two chain fields. -/
def bodyTail (r : WalRecord) : Bytes :=
  if r.type = .kTransitIntent then transitTail r else []

lemma encodeBody_eq (r : WalRecord) : encodeBody r =
    u32 (bodyMagic r) ++ (contentFields r ++
      ((if r.positionBound then r.prevHash else []) ++ (bytes r.originSignature ++
        (r.prevHash ++ (r.entryHash ++ bodyTail r))))) := by
  cases hb : r.positionBound <;>
    simp [encodeBody, bodyMagic, bodyTail, buildContent_eq, buildContentLegacy, hb,
      rawBytes]

/-- The record as far as `DecodeBody` has read it at the origin. -/
def contentRecord (r : WalRecord) : WalRecord :=
  { lsn := r.lsn, type := r.type, collection := r.collection, key := r.key,
    documentBytes := r.documentBytes, keyHash := r.keyHash, hlc := r.hlc,
    originNodeId := r.originNodeId }

/-- The record as far as `DecodeBody` has read it at the tail. -/
def tailless (r : WalRecord) : WalRecord :=
  { contentRecord r with
    positionBound := r.positionBound, originSignature := r.originSignature,
    prevHash := r.prevHash, entryHash := r.entryHash }

lemma reads_contentFields (h : ∀ b ∈ r.blobs, b.length < 2 ^ 32) :
    Reads readContentFields (contentFields r) (contentRecord r) := by
  obtain ⟨hcoll, hkey, hdoc, hhash, hnode, horigin, -⟩ := forall_blobs.mp h
  exact (reads_u64 _).bind <| (reads_u8 _).bind <| (reads_bytes hcoll).bind <|
    (reads_bytes hkey).bind <| (reads_bytes hdoc).bind <| (reads_bytes hhash).bind <|
    (reads_u64 _).bind <| (reads_u32 _).bind <| (reads_bytes hnode).bind (reads_bytes horigin).map

lemma reads_transitTail (h : r.transitHolder.length < 2 ^ 32) (r₀ : WalRecord) :
    Reads (readTransitTail r₀) (transitTail r)
      { r₀ with
        transitHolder := r.transitHolder, transitSizeBytes := r.transitSizeBytes
        transitChunkIndex := r.transitChunkIndex, transitChunkTotal := r.transitChunkTotal } :=
  (reads_bytes h).bind <| (reads_u64 _).bind <| (reads_u32 _).bind (reads_u32 _).map

lemma reads_hash {h : Bytes} (hlen : h.length = kWalHashLen) :
    Reads (ByteReader.rawBytes kWalHashLen) h h := by
  rw [← hlen]
  exact reads_rawBytes h

/-- `DecodeBody` reaches the tail of what `EncodeBody` wrote. -/
lemma run_readBody (h : r.WellFormed) :
    readBody.run (encodeBody r) = (readTail (tailless r)).run (bodyTail r) := by
  have hsig : r.originSignature.length < 2 ^ 32 := h.blobs_lt _ (by simp [blobs])
  have hmagic : ¬ (bodyMagic r ≠ kWalRecordMagicV2 ∧ bodyMagic r ≠ kWalRecordMagicV3) := by
    rw [bodyMagic]
    split_ifs <;> simp
  have hbound : (bodyMagic r == kWalRecordMagicV3) = r.positionBound := by
    rw [bodyMagic]
    cases r.positionBound <;> rfl
  have hprev : Reads (readContentPrev r.positionBound)
      (if r.positionBound then r.prevHash else [])
      (if r.positionBound then r.prevHash else []) := by
    rw [readContentPrev]
    split_ifs
    · exact reads_hash h.length_prevHash
    · exact Reads.pure []
  have hroom : ¬ (r.prevHash ++ (r.entryHash ++ bodyTail r)).length < 2 * kWalHashLen := by
    rw [length_append, length_append, h.length_prevHash, h.length_entryHash]
    omega
  have hsame : ¬ (r.positionBound = true ∧
      r.prevHash ≠ if r.positionBound then r.prevHash else []) := by
    rintro ⟨hb, hne⟩
    rw [if_pos hb] at hne
    exact hne rfl
  rw [encodeBody_eq, readBody, (reads_u32 _).run_bind, if_neg hmagic,
    (reads_contentFields h.blobs_lt).run_bind]
  simp only [hbound]
  rw [hprev.run_bind, (reads_bytes hsig).run_bind, readChain, run_remaining_bind, if_neg hroom,
    (reads_hash h.length_prevHash).run_bind]
  rw [if_neg hsame, (reads_hash h.length_entryHash).run_bind]
  rfl

lemma bodyTail_length_pos (h : r.type = .kTransitIntent) : (bodyTail r).length > 0 := by
  simp [bodyTail, h, transitTail]

/-- **The round trip**, and its only obstacle. -/
lemma decodeBody_encodeBody (h : r.WellFormed) :
    (r.ChunksOk → decodeBody (encodeBody r) = .ok r) ∧
      (¬ r.ChunksOk → ∃ st, decodeBody (encodeBody r) = .error st) := by
  rw [decodeBody, run_readBody h, readTail, run_remaining_bind]
  by_cases ht : r.type = .kTransitIntent
  · have hholder : r.transitHolder.length < 2 ^ 32 := h.blobs_lt _ (by simp [blobs])
    have hr : { tailless r with
        transitHolder := r.transitHolder, transitSizeBytes := r.transitSizeBytes
        transitChunkIndex := r.transitChunkIndex, transitChunkTotal := r.transitChunkTotal } = r :=
      rfl
    have htail := (reads_transitTail hholder (tailless r)).map (f := checkChunks)
    rw [hr] at htail
    have hnot : ¬ (tailless r).type ≠ .kTransitIntent := not_not.mpr ht
    rw [if_pos (bodyTail_length_pos ht), if_neg hnot, bodyTail, if_pos ht, htail.run_eq]
    simp only [checkChunks]
    refine ⟨fun hc => ?_, fun hc => ?_⟩
    · obtain ⟨htotal, hindex⟩ := hc ht
      rw [if_neg htotal, if_neg (UInt32.not_le.mpr hindex)]
    · by_cases htotal : r.transitChunkTotal = 0
      · exact ⟨_, if_pos htotal⟩
      · have hindex : r.transitChunkIndex ≥ r.transitChunkTotal :=
          UInt32.not_lt.mp fun hlt => hc fun _ => ⟨htotal, hlt⟩
        rw [if_neg htotal, if_pos hindex]
        exact ⟨_, rfl⟩
  · have hnil : bodyTail r = [] := if_neg ht
    rw [hnil]
    refine ⟨fun _ => ?_, fun hc => absurd (fun hi => absurd hi ht) hc⟩
    obtain ⟨hholder, hsize, hindex, htotal⟩ := h.whole ht
    have hr : tailless r = r := by
      rw [tailless, contentRecord]
      cases r
      simp_all
    rw [hr]
    rfl

/-! ## What decoding returns -/

lemma yields_contentFields :
    Yields readContentFields fun r => (∀ b ∈ r.blobs, b.length < 2 ^ 32) ∧ r.Whole :=
  yields_skip fun _ => yields_skip fun _ => yields_bytes.bind fun _ hcoll =>
    yields_bytes.bind fun _ hkey => yields_bytes.bind fun _ hdoc => yields_bytes.bind fun _ hhash =>
    yields_skip fun _ => yields_skip fun _ => yields_bytes.bind fun _ hnode =>
    yields_bytes.bind fun _ horigin => Yields.pure
      ⟨forall_blobs.mpr
        ⟨hcoll, hkey, hdoc, hhash, hnode, horigin, Nat.two_pow_pos _, Nat.two_pow_pos _⟩,
        rfl, rfl, rfl, rfl⟩

/-- A decoded record is one the format can carry, and its chunk numbers are in order. -/
def DecodesWell (result : Except Status WalRecord) : Prop :=
  ∀ r, result = .ok r → r.WellFormed ∧ r.ChunksOk

lemma decodesWell_error (st : Status) : DecodesWell (.error st) := fun _ h => by cases h

lemma yields_readTail (hblobs : ∀ b ∈ r.blobs, b.length < 2 ^ 32) (hwhole : r.Whole)
    (hprev : r.prevHash.length = kWalHashLen) (hentry : r.entryHash.length = kWalHashLen) :
    Yields (readTail r) DecodesWell := by
  refine yields_skip fun n => ?_
  split_ifs with hn ht
  · exact Yields.pure (decodesWell_error _)
  · obtain ⟨hcoll, hkey, hdoc, hhash, hnode, horigin, hsig, -⟩ := forall_blobs.mp hblobs
    refine Yields.bind (P := fun r' => r'.WellFormed) ?_ fun r' hr' => Yields.pure ?_
    · exact yields_bytes.bind fun _ hholder => yields_skip fun _ =>
        yields_skip fun _ => yields_skip fun _ => Yields.pure
          ⟨forall_blobs.mpr
              ⟨hcoll, hkey, hdoc, hhash, hnode, horigin, hsig, hholder⟩,
            hprev, hentry, fun h => absurd (not_not.mp ht) h⟩
    · intro r'' hok
      unfold checkChunks at hok
      split_ifs at hok with htotal hindex
      obtain rfl := Except.ok.inj hok
      exact ⟨hr', fun _ => ⟨htotal, UInt32.not_le.mp hindex⟩⟩
  · refine Yields.pure fun r' hok => ?_
    obtain rfl := Except.ok.inj hok
    exact ⟨⟨hblobs, hprev, hentry, fun _ => hwhole⟩, hwhole.chunksOk⟩

lemma yields_readBody : Yields readBody DecodesWell := by
  refine yields_skip fun magic => ?_
  split_ifs
  · exact Yields.pure (decodesWell_error _)
  · refine yields_contentFields.bind fun r hr => yields_skip fun contentPrev =>
      yields_bytes.bind fun sig hsig => yields_skip fun n => ?_
    split_ifs
    · exact Yields.pure (decodesWell_error _)
    · refine (yields_take _ _).bind fun prev hprev => ?_
      split_ifs
      · exact Yields.pure (decodesWell_error _)
      · refine (yields_take _ _).bind fun entry hentry => yields_readTail ?_ hr.2 hprev hentry
        obtain ⟨hcoll, hkey, hdoc, hhash, hnode, horigin, -, hholder⟩ :=
          forall_blobs.mp hr.1
        exact forall_blobs.mpr
          ⟨hcoll, hkey, hdoc, hhash, hnode, horigin, hsig, hholder⟩

lemma decodesWell_decodeBody (body : Bytes) : DecodesWell (decodeBody body) := by
  rw [decodeBody]
  cases hrun : readBody.run body with
  | error what => exact decodesWell_error _
  | ok x => exact yields_readBody body x.1 x.2 hrun

lemma yields_readBlobsV1 : Yields readBlobsV1 fun x =>
    x.1.length < 2 ^ 32 ∧ x.2.1.length < 2 ^ 32 ∧ x.2.2.length < 2 ^ 32 :=
  yields_bytes.bind fun _ hcoll => yields_bytes.bind fun _ hkey => yields_bytes.bind fun _ hdoc =>
    Yields.pure ⟨hcoll, hkey, hdoc⟩

lemma decodesWell_decodeBodyV1 (c : Crypto) (body : Bytes) : DecodesWell (decodeBodyV1 c body) := by
  unfold decodeBodyV1
  split_ifs
  · exact decodesWell_error _
  · cases hrun : readBlobsV1.run (body.drop 9) with
    | error what => exact decodesWell_error _
    | ok x =>
      obtain ⟨⟨collection, key, documentBytes⟩, rest⟩ := x
      obtain ⟨hcoll, hkey, hdoc⟩ := yields_readBlobsV1 _ _ _ hrun
      simp only
      split_ifs with hrest
      · exact decodesWell_error _
      · intro r hok
        obtain rfl := Except.ok.inj hok
        rw [kWalHashLen] at hrest
        refine ⟨⟨?_, ?_, ?_, fun _ => ⟨rfl, rfl, rfl, rfl⟩⟩,
          WalRecord.Whole.chunksOk ⟨rfl, rfl, rfl, rfl⟩⟩
        · have hhash : (ledgerKeyHash c collection key).length < 2 ^ 32 := by
            rw [ledgerKeyHash, c.length_sha256]
            decide
          exact forall_blobs.mpr ⟨hcoll, hkey, hdoc, hhash, Nat.two_pow_pos _,
            Nat.two_pow_pos _, Nat.two_pow_pos _, Nat.two_pow_pos _⟩
        · rw [length_take, kWalHashLen]
          omega
        · rw [length_take, length_drop, kWalHashLen]
          omega

/-! ## Payloads -/

variable {c : Crypto} {nonce : Except Bytes Nonce} {subkey payload : Bytes} {s s' : ReadState}

lemma take_four_encodeBody : (encodeBody r).take 4 = u32 (bodyMagic r) := by
  rw [encodeBody_eq]
  exact take_left' (length_u32 _)

lemma four_le_length_encodeBody (r : WalRecord) : 4 ≤ (encodeBody r).length := by
  rw [encodeBody_eq, length_append, length_u32]
  omega

/-- A body does not look sealed. -/
lemma looksSealedRecord_encodeBody : AtRest.looksSealedRecord (encodeBody r) = false := by
  rw [AtRest.looksSealedRecord, take_four_encodeBody, bodyMagic]
  cases r.positionBound <;> decide

lemma hasBodyMagic_encodeBody (r : WalRecord) : hasBodyMagic (encodeBody r) = true := by
  rw [hasBodyMagic, take_four_encodeBody, decide_eq_true (four_le_length_encodeBody r), bodyMagic]
  cases r.positionBound <;> decide

/-- Whether a payload is sealed shows in its first bytes. -/
lemma looksSealedRecord_sealPayload (h : sealPayload c nonce subkey (encodeBody r) = .ok payload) :
    AtRest.looksSealedRecord payload = decide (subkey ≠ []) := by
  unfold sealPayload at h
  split_ifs at h with hkey
  · obtain rfl := Except.ok.inj h
    rw [looksSealedRecord_encodeBody]
    simp [hkey]
  · rw [AtRest.looksSealedRecord_seal h]
    simp [hkey]

lemma unsealPayload_sealPayload (h : sealPayload c nonce subkey (encodeBody r) = .ok payload) :
    unsealPayload c subkey payload = .ok (encodeBody r) := by
  have hlook := looksSealedRecord_sealPayload h
  unfold sealPayload at h
  split_ifs at h with hkey
  · obtain rfl := Except.ok.inj h
    simp [unsealPayload, hkey, looksSealedRecord_encodeBody]
  · have hopen := AtRest.openRecord_seal h
    simp [unsealPayload, hkey, hlook, hopen]

/-- How many bytes sealing adds. -/
def sealOverhead (subkey : Bytes) : ℕ := if subkey = [] then 0 else 32

lemma length_sealPayload (h : sealPayload c nonce subkey (encodeBody r) = .ok payload) :
    payload.length = (encodeBody r).length + sealOverhead subkey := by
  unfold sealPayload at h
  rw [sealOverhead]
  split_ifs at h ⊢ with hkey
  · rw [← Except.ok.inj h, add_zero]
  · exact AtRest.length_sealRecord h

namespace WalRecord

/-- The reader accepts the record's body: its chunk numbers are in order and its frame is not
longer than the reader considers. -/
def Loggable (subkey : Bytes) (r : WalRecord) : Prop :=
  r.ChunksOk ∧ (encodeBody r).length + sealOverhead subkey + 4 ≤ kMaxRecordBytes

instance (subkey : Bytes) (r : WalRecord) : Decidable (r.Loggable subkey) :=
  inferInstanceAs (Decidable (_ ∧ _))

end WalRecord

lemma fits_sealPayload_iff (h : sealPayload c nonce subkey (encodeBody r) = .ok payload) :
    walFormat.Fits payload ↔ (encodeBody r).length + sealOverhead subkey + 4 ≤ kMaxRecordBytes := by
  have hmin := four_le_length_encodeBody r
  rw [Format.Fits, length_sealPayload h]
  change 8 ≤ _ ∧ _ ≤ kMaxRecordBytes ↔ _
  exact ⟨fun hfit => hfit.2, fun hmax => ⟨by omega, hmax⟩⟩

/-- Every length-prefixed field is part of the body. -/
lemma length_blob_le (hwhole : r.type ≠ .kTransitIntent → r.Whole) :
    ∀ b ∈ r.blobs, b.length ≤ (encodeBody r).length := by
  have hlen : (encodeBody r).length = 4 + ((contentFields r).length +
      ((if r.positionBound then r.prevHash else []).length + (r.originSignature.length + 4 +
        (r.prevHash.length + (r.entryHash.length + (bodyTail r).length))))) := by
    simp only [encodeBody_eq, length_append, length_u32, length_bytes]
  have hfields : (contentFields r).length = 8 + (1 + (r.collection.length + 4 + (r.key.length + 4 +
      (r.documentBytes.length + 4 + (r.keyHash.length + 4 + (8 + (4 +
        (r.hlc.nodeId.length + 4 + (r.originNodeId.length + 4))))))))) := by
    simp only [contentFields, length_append, length_u64, length_u8,
      length_u32, length_bytes]
  have hholder : r.transitHolder.length ≤ (bodyTail r).length := by
    by_cases ht : r.type = .kTransitIntent
    · rw [bodyTail, if_pos ht, transitTail, length_append, length_bytes]
      omega
    · rw [(hwhole ht).1]
      exact Nat.zero_le _
  refine forall_blobs.mpr ⟨?_, ?_, ?_, ?_, ?_, ?_, ?_, ?_⟩ <;> omega

section Sealed

variable (h : sealPayload c nonce subkey (encodeBody r) = .ok payload)
include h

/-- The loop body of the reader on a record's payload. -/
lemma readRecord_sealPayload : readRecord c subkey s payload =
      match decodeBody (encodeBody r) with
      | .error _ => .reject
      | .ok r => acceptRecord s r false := by
  rw [readRecord, unsealPayload_sealPayload h]
  exact if_pos (hasBodyMagic_encodeBody r)

lemma readRecord_of_chunksOk (hr : r.WellFormed) (hc : r.ChunksOk) :
    readRecord c subkey s payload = acceptRecord s r false := by
  rw [readRecord_sealPayload h, (decodeBody_encodeBody hr).1 hc]

lemma readRecord_of_not_chunksOk
    (hr : r.WellFormed) (hc : ¬ r.ChunksOk) : readRecord c subkey s payload = .reject := by
  obtain ⟨st, hst⟩ := (decodeBody_encodeBody hr).2 hc
  rw [readRecord_sealPayload h, hst]

end Sealed

lemma acceptRecord_accept {v1 : Bool} (h : acceptRecord s r v1 = .accept s') :
    s'.records = s.records ++ [r] ∧ s'.migratedFromV1 = (s.migratedFromV1 || v1) := by
  unfold acceptRecord at h
  by_cases hback : 0 ≤ r.lsn ∧ r.lsn < s.expectedLsn
  · rw [if_pos hback] at h
    cases h
  · rw [if_neg hback] at h
    obtain rfl := Verdict.accept.inj h
    exact ⟨rfl, rfl⟩

/-- What the reader accepts, it has decoded, in the mode of the log. -/
lemma readRecord_accept (h : readRecord c subkey s payload = .accept s') :
    ∃ r v1, r.WellFormed ∧ r.ChunksOk ∧ acceptRecord s r v1 = .accept s' ∧
      AtRest.looksSealedRecord payload = decide (subkey ≠ []) := by
  have hmode : ∀ plain, unsealPayload c subkey payload = .ok plain →
      AtRest.looksSealedRecord payload = decide (subkey ≠ []) := by
    intro plain hok
    unfold unsealPayload at hok
    cases hlook : AtRest.looksSealedRecord payload <;> by_cases hkey : subkey = [] <;>
      simp [hlook, hkey] at hok ⊢
  unfold readRecord at h
  split at h
  · cases h
  · cases h
  · rename_i plain hplain
    split_ifs at h
    · cases hd : decodeBody plain with
      | error st =>
        rw [hd] at h
        cases h
      | ok r =>
        rw [hd] at h
        obtain ⟨hwf, hc⟩ := decodesWell_decodeBody plain r hd
        exact ⟨r, false, hwf, hc, h, hmode plain hplain⟩
    · cases hd : decodeBodyV1 c plain with
      | error st =>
        rw [hd] at h
        cases h
      | ok r =>
        rw [hd] at h
        obtain ⟨hwf, hc⟩ := decodesWell_decodeBodyV1 c plain r hd
        exact ⟨r, true, hwf, hc, h, hmode plain hplain⟩

end DeSentry
