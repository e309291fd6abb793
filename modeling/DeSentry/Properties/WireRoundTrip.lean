import DeSentry.Construction.Net.WireCodec

/-!
# The round trip of the wire codec

`wire_round_trip` is the result: every payload type decodes what it encodes, as long as its byte
strings and lists have fewer than `2 ^ 32` elements, its chunk fields are in range and a summary has
at most 1024 collections.  It is proved payload by payload with `ByteCodec.Reads`, which relates a
writer and a reader: a reader that finds the bytes of a value returns it, whatever follows.

In a handshake each side puts the HELLO that it has decoded into the transcript, so the two sides
sign the same bytes (`Wire.transcript_eq`).
-/

namespace DeSentry

open ByteCodec ByteWriter List

/-! ## Sizes -/

/-- The size of a byte string or a list survives the cast to 32 bits. -/
def Fits {α : Type} (l : List α) : Prop := l.length < 2 ^ 32

lemma bytes_ne_nil (s : Bytes) : bytes s ≠ [] := by
  rw [ne_eq, ← length_eq_zero_iff, length_bytes]
  omega

lemma u64_ne_nil (v : UInt64) : u64 v ≠ [] := by
  rw [ne_eq, ← length_eq_zero_iff, length_u64]
  omega

lemma reads_trailing_bytes {s : Bytes} (h : Fits s) :
    Reads (ByteReader.trailing [] ByteReader.bytes) (bytes s) s :=
  reads_trailing (reads_bytes h) (bytes_ne_nil s)

lemma reads_trailing_u64 (v : UInt64) :
    Reads (ByteReader.trailing 0 ByteReader.u64) (u64 v) v :=
  reads_trailing (reads_u64 v) (u64_ne_nil v)

lemma reads_trailing_u8 (initial v : UInt8) :
    Reads (ByteReader.trailing initial ByteReader.u8) (u8 v) v :=
  reads_trailing (reads_u8 v) (cons_ne_nil v [])

@[simp] lemma decide_flag_ne_zero (b : Bool) : decide (flag b ≠ 0) = b := by
  cases b <;> rfl

variable {α : Type}

/-- What is read is what is decoded. -/
lemma decodeWith_of_reads {bytes : Bytes} {get : ByteReader α} {a : α} (h : Reads get bytes a) :
    decodeWith get bytes = .ok a := by
  rw [decodeWith, h.run_eq]
  rfl

/-! ## The handshake -/

namespace Wire

/-- The fields of a HELLO fit. -/
def HelloPayload.Sized (h : HelloPayload) : Prop :=
  Fits h.nodeId ∧ Fits h.ed25519Pubkey ∧ Fits h.x25519EphemeralPubkey ∧ Fits h.signature ∧
    Fits h.membershipTag

variable {h : HelloPayload}

lemma HelloPayload.reads (hs : h.Sized) : Reads read h.encode h := by
  obtain ⟨hid, hkey, hephemeral, hsignature, htag⟩ := hs
  simp only [encode, append_assoc]
  exact (reads_bytes hid).bind ((reads_bytes hkey).bind ((reads_bytes hephemeral).bind
    ((reads_bytes hsignature).bind ((reads_u16 _).bind (reads_trailing_bytes htag).map))))

lemma HelloPayload.decode_encode (hs : h.Sized) : decode h.encode = .ok h :=
  decodeWith_of_reads (reads hs)

lemma ConfirmPayload.reads {c : ConfirmPayload} (h : Fits c.transcriptSignature) :
    Reads read c.encode c :=
  (reads_bytes h).map

/-- The client signs its own HELLO and the one it has decoded, and so does the server: the two
transcripts are the same bytes. -/
lemma transcript_eq {client server : HelloPayload} (hclient : client.Sized)
    (hserver : server.Sized) :
    ∃ client' server', HelloPayload.decode client.encode = .ok client' ∧
      HelloPayload.decode server.encode = .ok server' ∧
      transcriptMessage client.raw server'.raw = transcriptMessage client'.raw server.raw :=
  ⟨client, server, HelloPayload.decode_encode hclient, HelloPayload.decode_encode hserver, rfl⟩

end Wire

/-! ## Gossip -/

/-- The fields of an entry fit. -/
def DigestEntry.Sized (e : DigestEntry) : Prop :=
  Fits e.key ∧ Fits e.topTsEncoded ∧ Fits e.contentHash

lemma DigestEntry.reads {e : DigestEntry} (h : e.Sized) : Reads read e.encode e := by
  obtain ⟨hkey, hts, hhash⟩ := h
  simp only [encode, append_assoc]
  exact (reads_bytes hkey).bind ((reads_bytes hts).bind (reads_bytes hhash).map)

/-- The fields of a digest fit. -/
def DigestPayload.Sized (d : DigestPayload) : Prop :=
  Fits d.collection ∧ Fits d.entries ∧ ∀ e ∈ d.entries, e.Sized

lemma DigestPayload.reads {d : DigestPayload} (h : d.Sized) : Reads read d.encode d := by
  obtain ⟨hcollection, hlen, hentries⟩ := h
  have hcounted := reads_counted hlen fun e he => DigestEntry.reads (hentries e he)
  exact (reads_bytes hcollection).bind hcounted.map

/-- The fields of a document fit. -/
def DocEntry.Sized (d : DocEntry) : Prop := Fits d.key ∧ Fits d.encodedDoc

lemma DocEntry.reads {d : DocEntry} (h : d.Sized) : Reads read d.encode d :=
  (reads_bytes h.1).bind (reads_bytes h.2).map

lemma reads_docs {docs : List DocEntry} (hlen : Fits docs) (h : ∀ d ∈ docs, d.Sized) :
    Reads (ByteReader.counted DocEntry.read) (counted DocEntry.encode docs) docs :=
  reads_counted hlen fun d hd => DocEntry.reads (h d hd)

/-- A list of byte strings reads back. -/
lemma reads_strings {strings : List Bytes} (hlen : Fits strings) (h : ∀ s ∈ strings, Fits s) :
    Reads (ByteReader.counted ByteReader.bytes) (counted bytes strings)
      strings :=
  reads_counted hlen fun s hs => reads_bytes (h s hs)

/-- The fields of a delta fit. -/
def DeltaResponsePayload.Sized (d : DeltaResponsePayload) : Prop :=
  Fits d.collection ∧ (Fits d.pushed ∧ ∀ e ∈ d.pushed, e.Sized) ∧
    Fits d.wantedKeys ∧ ∀ k ∈ d.wantedKeys, Fits k

lemma DeltaResponsePayload.reads {d : DeltaResponsePayload} (h : d.Sized) :
    Reads read d.encode d := by
  obtain ⟨hcollection, ⟨hlen, hpushed⟩, hkeys, hwanted⟩ := h
  simp only [encode, append_assoc]
  exact (reads_bytes hcollection).bind ((reads_docs hlen hpushed).bind
    (reads_strings hkeys hwanted).map)

/-- The fields of a broadcast fit. -/
def OpBroadcastPayload.Sized (o : OpBroadcastPayload) : Prop :=
  Fits o.collection ∧ (Fits o.docs ∧ ∀ d ∈ o.docs, d.Sized) ∧ Fits o.messageId

lemma OpBroadcastPayload.reads {o : OpBroadcastPayload} (h : o.Sized) :
    Reads read o.encode o := by
  obtain ⟨hcollection, ⟨hlen, hdocs⟩, hid⟩ := h
  simp only [encode, append_assoc]
  exact (reads_bytes hcollection).bind ((reads_docs hlen hdocs).bind
    ((reads_trailing_bytes hid).bind (reads_trailing_u8 1 _).map))

/-! ## Transit -/

namespace Wire

lemma TransitQueryPayload.reads (p : TransitQueryPayload) : Reads read p.encode p :=
  (reads_trailing_u64 p.offset).map

/-- The fields of a claim fit. -/
def TransitClaimPayload.Sized (p : TransitClaimPayload) : Prop :=
  Fits p.claimerNode ∧ Fits p.keyHashes ∧ ∀ h ∈ p.keyHashes, Fits h

lemma TransitClaimPayload.reads {p : TransitClaimPayload} (h : p.Sized) : Reads read p.encode p :=
  (reads_bytes h.1).bind (reads_strings h.2.1 h.2.2).map

/-- The fields of a held-acknowledgement fit. -/
def TransitHeldPayload.Sized (p : TransitHeldPayload) : Prop :=
  Fits p.messageId ∧ Fits p.keyHash ∧ Fits p.holderNode ∧ Fits p.signature

lemma TransitHeldPayload.reads {p : TransitHeldPayload} (h : p.Sized) :
    Reads read p.encode p := by
  obtain ⟨hid, hhash, hholder, hsignature⟩ := h
  simp only [encode, append_assoc]
  exact (reads_bytes hid).bind ((reads_bytes hhash).bind ((reads_bytes hholder).bind
    ((reads_i64 _).bind (reads_bytes hsignature).map)))

end Wire

/-- The fields of a receipt fit. -/
def MergeReceipt.Sized (m : MergeReceipt) : Prop :=
  Fits m.messageId ∧ Fits m.keyHash ∧ Fits m.applierNode ∧ Fits m.signature

lemma MergeReceipt.reads {m : MergeReceipt} (h : m.Sized) : Reads read m.encode m := by
  obtain ⟨hid, hhash, happlier, hsignature⟩ := h
  simp only [encode, append_assoc]
  exact (reads_bytes hid).bind ((reads_bytes hhash).bind ((reads_bytes happlier).bind
    ((reads_i64 _).bind (reads_bytes hsignature).map)))

variable {β : Type}

/-- A reader that ends in a check. -/
lemma reads_checked {get : ByteReader α} {check : α → Except String α} {rest : α → ByteReader β}
    {xs ys : Bytes} {a a' : α} {b : β} (hget : Reads get xs a) (hcheck : check a = .ok a')
    (hrest : Reads (rest a') ys b) :
    Reads (get >>= fun a => StateT.lift (check a) >>= rest) (xs ++ ys) b := by
  refine hget.bind fun more => ?_
  rw [hcheck]
  exact hrest more

namespace TransitEntry

variable {e : TransitEntry}

/-- The byte strings of an entry that the first version has. -/
def SizedV1 (e : TransitEntry) : Prop :=
  Fits e.collection ∧ Fits e.key ∧ Fits e.keyHash ∧ Fits e.encodedDoc ∧ Fits e.holderNode

/-- The fields of an entry fit, and its chunk fields are in range. -/
def Sized (e : TransitEntry) : Prop :=
  e.SizedV1 ∧ e.chunkIndex < e.chunkTotal ∧ Fits e.contentHash ∧ Fits e.holderSig

/-- An entry as the first version writes it. -/
def encodeV1 (e : TransitEntry) : Bytes :=
  bytes e.collection ++ bytes e.key ++ bytes e.keyHash ++
    bytes e.encodedDoc ++ i64 e.intentLsn ++ bytes e.holderNode

/-- An entry up to the chunk fields. -/
def encodeChunk (e : TransitEntry) : Bytes :=
  e.encodeV1 ++ u64 e.docSizeBytes ++ u32 e.chunkIndex ++
    u32 e.chunkTotal

/-- An entry without the fields that come after the chunk fields. -/
def untailed (e : TransitEntry) : TransitEntry := { e with contentHash := [], holderSig := [] }

/-- An entry without the fields that the first version does not have. -/
def whole (e : TransitEntry) : TransitEntry :=
  { e.untailed with docSizeBytes := 0, chunkIndex := 0, chunkTotal := 1 }

lemma encode_eq : e.encode =
    e.encodeChunk ++ (bytes e.contentHash ++ bytes e.holderSig) := by
  simp only [encode, encodeChunk, encodeV1, append_assoc]

lemma reads_v1 (h : e.SizedV1) : Reads readV1 e.encodeV1 e.whole := by
  obtain ⟨hcollection, hkey, hhash, hdoc, hholder⟩ := h
  simp only [encodeV1, append_assoc]
  exact (reads_bytes hcollection).bind ((reads_bytes hkey).bind ((reads_bytes hhash).bind
    ((reads_bytes hdoc).bind ((reads_i64 _).bind (reads_bytes hholder).map))))

lemma reads_chunk (h : e.SizedV1) : Reads readChunk e.encodeChunk e.untailed := by
  simp only [encodeChunk, append_assoc]
  exact (reads_v1 h).bind ((reads_u64 _).bind ((reads_u32 _).bind (reads_u32 _).map))

/-- What the check makes of an entry without the fields that come after it. -/
lemma checkChunk_untailed : e.untailed.checkChunk =
    if e.withChunkTotal.chunkIndex ≥ e.withChunkTotal.chunkTotal then
      .error "transit chunk index out of range"
    else .ok e.withChunkTotal.untailed := by
  by_cases hzero : e.chunkTotal = 0
  · simp only [checkChunk, withChunkTotal, untailed, hzero, if_true]
  · simp only [checkChunk, withChunkTotal, untailed, hzero, if_false]

lemma withChunkTotal_of_lt (h : e.chunkIndex < e.chunkTotal) : e.withChunkTotal = e := by
  have hpos : 0 < e.chunkTotal := UInt32.lt_of_le_of_lt UInt32.zero_le h
  rw [withChunkTotal, if_neg (UInt32.ne_of_lt hpos).symm]

lemma reads_entry (h : e.Sized) : Reads read e.encode e := by
  obtain ⟨hv1, hchunk, hhash, hsig⟩ := h
  have hcheck := e.checkChunk_untailed
  rw [withChunkTotal_of_lt hchunk, if_neg (UInt32.not_le.mpr hchunk)] at hcheck
  rw [encode_eq]
  exact reads_checked (reads_chunk hv1) hcheck
    ((reads_trailing_bytes hhash).bind (reads_trailing_bytes hsig).map)

end TransitEntry

/-- A payload that starts with a number has that magic number and no other. -/
lemma hasMagic_u32 (n magic : UInt32) (rest : Bytes) :
    hasMagic (u32 n ++ rest) magic = decide (n = magic) := by
  have htake : (u32 n ++ rest).take 4 = u32 n :=
    take_left' (length_u32 n)
  have hvalue : leValue (u32 n) = n.toNat := by
    rw [u32, leValue_leBytes]
    exact Nat.mod_eq_of_lt n.toNat_lt
  have hlen : 4 ≤ (u32 n ++ rest).length := by
    rw [length_append, length_u32]
    omega
  rw [hasMagic, htake, hvalue]
  exact decide_eq_decide.mpr ⟨fun h => UInt32.toNat_inj.mp h.2, fun h => ⟨hlen, by rw [h]⟩⟩

/-- A payload that starts with a magic number has it. -/
lemma hasMagic_append (magic : UInt32) (rest : Bytes) :
    hasMagic (u32 magic ++ rest) magic = true := by
  rw [hasMagic_u32, decide_eq_true_eq]

/-- A vector whose elements are read as other values. -/
lemma reads_counted_map {get : ByteReader β} {put : α → Bytes} {value : α → β} {as : List α}
    (hlen : Fits as) (h : ∀ a ∈ as, Reads get (put a) (value a)) :
    Reads (ByteReader.counted get) (counted put as) (as.map value) := by
  refine (reads_u32 _).bind ?_
  rw [UInt32.toNat_ofNat', Nat.mod_eq_of_lt hlen, ← length_map (f := value)]
  refine Reads.many (List.forall₂_map_left_iff.mpr (List.forall₂_map_right_iff.mpr ?_))
  exact List.forall₂_same.mpr h

namespace TransitResponsePayload

/-- The fields of a response fit. -/
def Sized (p : TransitResponsePayload) : Prop := Fits p.entries ∧ ∀ e ∈ p.entries, e.Sized

lemma encode_eq (p : TransitResponsePayload) : p.encode =
    u32 kTransitResponseMagicV2 ++ (counted TransitEntry.encode p.entries ++
      (u8 (flag p.truncated) ++ u64 p.nextOffset)) := by
  simp only [encode, counted, flag, append_assoc]

variable {p : TransitResponsePayload}

lemma decode_encode (h : p.Sized) : decode p.encode = .ok p := by
  have hentries := reads_counted h.1 fun e he => TransitEntry.reads_entry (h.2 e he)
  have hmagic : hasMagic p.encode kTransitResponseMagicV2 = true := by
    rw [encode_eq]
    exact hasMagic_append _ _
  have hreads : Reads readV2 p.encode { p with truncated := decide (flag p.truncated ≠ 0) } := by
    rw [encode_eq]
    exact (reads_u32 _).bind (hentries.bind ((reads_trailing_u8 0 _).bind
      (reads_trailing_u64 _).map))
  rw [decide_flag_ne_zero] at hreads
  rw [decode, if_pos hmagic]
  exact decodeWith_of_reads hreads

end TransitResponsePayload

/-! ## The ledger -/

/-- The fields of a ledger digest fit. -/
def LedgerDigestPayload.Sized (p : LedgerDigestPayload) : Prop :=
  Fits p.tipEntryHash ∧ Fits p.tipSignature ∧ Fits p.entryHashes ∧ ∀ h ∈ p.entryHashes, Fits h

lemma LedgerDigestPayload.reads {p : LedgerDigestPayload} (h : p.Sized) :
    Reads read p.encode p := by
  obtain ⟨hhash, hsignature, hlen, hhashes⟩ := h
  simp only [encode, append_assoc]
  exact (reads_i64 _).bind ((reads_bytes hhash).bind ((reads_bytes hsignature).bind
    ((reads_i64 _).bind (reads_strings hlen hhashes).map)))

namespace LedgerEntrySummary

variable {e : LedgerEntrySummary}

/-- The byte strings of an entry that the first version has. -/
def SizedV1 (e : LedgerEntrySummary) : Prop :=
  Fits e.keyHash ∧ Fits e.entryHash ∧ Fits e.prevHash ∧ Fits e.originNodeId ∧
    Fits e.originSignature ∧ Fits e.collection ∧ Fits e.key

/-- The fields of an entry fit, and its chunk fields are in range. -/
def Sized (e : LedgerEntrySummary) : Prop :=
  e.SizedV1 ∧ Fits e.transitHolder ∧ e.transitChunkIndex < e.transitChunkTotal ∧ Fits e.aclJson

/-- An entry as the first version writes it. -/
def encodeV1 (e : LedgerEntrySummary) : Bytes :=
  i64 e.entryId ++ u8 e.operation.value ++ bytes e.keyHash ++
    bytes e.entryHash ++ bytes e.prevHash ++
    bytes e.originNodeId ++ bytes e.originSignature ++
    i64 e.hlcPhysicalMs ++ u32 e.hlcLogical ++
    bytes e.collection ++ bytes e.key

/-- An entry up to the chunk fields. -/
def encodeChunk (e : LedgerEntrySummary) : Bytes :=
  e.encodeV1 ++ bytes e.transitHolder ++ u64 e.transitSizeBytes ++
    u32 e.transitChunkIndex ++ u32 e.transitChunkTotal

/-- An entry without the field that comes after the chunk fields. -/
def untailed (e : LedgerEntrySummary) : LedgerEntrySummary := { e with aclJson := [] }

/-- An entry without the fields that the first version does not have. -/
def whole (e : LedgerEntrySummary) : LedgerEntrySummary :=
  { e.untailed with
    transitHolder := [], transitSizeBytes := 0, transitChunkIndex := 0, transitChunkTotal := 1 }

lemma encode_eq : e.encode = e.encodeChunk ++ bytes e.aclJson := by
  simp only [encode, encodeChunk, encodeV1, append_assoc]

lemma reads_v1 (h : e.SizedV1) : Reads readV1 e.encodeV1 e.whole := by
  obtain ⟨hkeyHash, hentry, hprev, horigin, hsignature, hcollection, hkey⟩ := h
  simp only [encodeV1, append_assoc]
  exact (reads_i64 _).bind ((reads_u8 _).bind ((reads_bytes hkeyHash).bind
    ((reads_bytes hentry).bind ((reads_bytes hprev).bind ((reads_bytes horigin).bind
      ((reads_bytes hsignature).bind ((reads_i64 _).bind ((reads_u32 _).bind
        ((reads_bytes hcollection).bind (reads_bytes hkey).map)))))))))

lemma reads_chunk (h : e.SizedV1) (hholder : Fits e.transitHolder) :
    Reads readChunk e.encodeChunk e.untailed := by
  simp only [encodeChunk, append_assoc]
  exact (reads_v1 h).bind ((reads_bytes hholder).bind ((reads_u64 _).bind
    ((reads_u32 _).bind (reads_u32 _).map)))

/-- What the check makes of an entry without the field that comes after it. -/
lemma checkChunk_untailed : e.untailed.checkChunk =
    if e.withChunkTotal.transitChunkIndex ≥ e.withChunkTotal.transitChunkTotal then
      .error "ledger delta chunk index out of range"
    else .ok e.withChunkTotal.untailed := by
  by_cases hzero : e.transitChunkTotal = 0
  · simp only [checkChunk, withChunkTotal, untailed, hzero, if_true]
  · simp only [checkChunk, withChunkTotal, untailed, hzero, if_false]

lemma withChunkTotal_of_lt (h : e.transitChunkIndex < e.transitChunkTotal) :
    e.withChunkTotal = e := by
  have hpos : 0 < e.transitChunkTotal := UInt32.lt_of_le_of_lt UInt32.zero_le h
  rw [withChunkTotal, if_neg (UInt32.ne_of_lt hpos).symm]

lemma reads_entry (h : e.Sized) : Reads read e.encode e := by
  obtain ⟨hv1, hholder, hchunk, hacl⟩ := h
  have hcheck := e.checkChunk_untailed
  rw [withChunkTotal_of_lt hchunk, if_neg (UInt32.not_le.mpr hchunk)] at hcheck
  rw [encode_eq]
  exact reads_checked (reads_chunk hv1 hholder) hcheck (reads_trailing_bytes hacl).map

end LedgerEntrySummary

namespace LedgerDeltaPayload

/-- The fields of a delta fit. -/
def Sized (p : LedgerDeltaPayload) : Prop :=
  (Fits p.entries ∧ ∀ e ∈ p.entries, e.Sized) ∧ Fits p.tipSignature

lemma encode_eq (p : LedgerDeltaPayload) : p.encode =
    u32 kLedgerDeltaMagicV2 ++ (u8 (flag p.hashesOnly) ++
      (counted LedgerEntrySummary.encode p.entries ++
        bytes p.tipSignature)) := by
  simp only [encode, counted, flag, append_assoc]

variable {p : LedgerDeltaPayload}

lemma decode_encode (h : p.Sized) : decode p.encode = .ok p := by
  have hentries := reads_counted h.1.1 fun e he => LedgerEntrySummary.reads_entry (h.1.2 e he)
  have hmagic : hasMagic p.encode kLedgerDeltaMagicV2 = true := by
    rw [encode_eq]
    exact hasMagic_append _ _
  have hreads : Reads readV2 p.encode { p with hashesOnly := decide (flag p.hashesOnly ≠ 0) } := by
    rw [encode_eq]
    exact (reads_u32 _).bind ((reads_u8 _).bind (hentries.bind (reads_trailing_bytes h.2).map))
  rw [decide_flag_ne_zero] at hreads
  rw [decode, if_pos hmagic]
  exact decodeWith_of_reads hreads

end LedgerDeltaPayload

/-! ## Liveness and summaries -/

namespace Wire

lemma HeartbeatPayload.reads {h : HeartbeatPayload} (hid : Fits h.nodeId) :
    Reads read h.encode h := by
  have hreads : Reads read h.encode { h with
      quotaLimited := decide (flag h.quotaLimited ≠ 0)
      isSupervisor := decide (flag h.isSupervisor ≠ 0) } := by
    simp only [encode, append_assoc]
    exact (reads_bytes hid).bind ((reads_i64 _).bind ((reads_u64 _).bind
      ((reads_trailing_u8 0 _).bind ((reads_trailing_u64 _).bind ((reads_trailing_u64 _).bind
        ((reads_trailing_u8 3 _).bind (reads_trailing_u8 0 _).map))))))
  rwa [decide_flag_ne_zero, decide_flag_ne_zero] at hreads

namespace SyncSummaryPayload

/-- At most 1024 collections, whose names and checksums fit. -/
def Sized (s : SyncSummaryPayload) : Prop :=
  s.collections.length ≤ 1024 ∧ ∀ c ∈ s.collections, Fits c.1 ∧ Fits c.2

variable {s : SyncSummaryPayload}

lemma reads_collections (h : s.Sized) :
    Reads (many readCollection s.collections.length) (s.collections.map encodeCollection).flatten
      s.collections :=
  Reads.many (List.forall₂_map_left_iff.mpr (List.forall₂_same.mpr fun c hc =>
    (reads_bytes (h.2 c hc).1).bind (reads_bytes (h.2 c hc).2).map))

lemma decode_encode (h : s.Sized) :
    decodeWith read s.encode = .ok s := by
  have hlen : s.collections.length < 2 ^ 32 := lt_of_le_of_lt h.1 (by decide)
  have hcount : (UInt32.ofNat s.collections.length).toNat = s.collections.length := by
    rw [UInt32.toNat_ofNat', Nat.mod_eq_of_lt hlen]
  have hsmall : ¬ UInt32.ofNat s.collections.length > 1024 := by
    rw [gt_iff_lt, UInt32.lt_iff_toNat_lt, hcount]
    exact Nat.not_lt.mpr h.1
  have hrest := (reads_collections h).run_bind (β := SyncSummaryPayload) (f := fun collections => do
    let n ← ByteReader.remaining
    if n ≠ 0 then throw "sync summary has trailing bytes"
    pure { collections }) []
  rw [append_nil] at hrest
  rw [decodeWith, read, encode, counted, (reads_u32 _).run_bind, if_neg hsmall, hcount]
  exact congrArg (Except.map Prod.fst) hrest

end SyncSummaryPayload

end Wire

/-! ## All payloads -/

namespace PayloadType

/-- The bounds of a payload. -/
def Sized : (t : PayloadType) → t.Payload → Prop
  | hello, p => Wire.HelloPayload.Sized p
  | confirm, p => Fits (Wire.ConfirmPayload.transcriptSignature p)
  | digest, p => DigestPayload.Sized p
  | deltaResponse, p => DeltaResponsePayload.Sized p
  | opBroadcast, p => OpBroadcastPayload.Sized p
  | transitQuery, _ => True
  | transitResponse, p => TransitResponsePayload.Sized p
  | transitClaim, p => Wire.TransitClaimPayload.Sized p
  | transitHeld, p => Wire.TransitHeldPayload.Sized p
  | mergeReceipt, p => MergeReceipt.Sized p
  | ledgerDigest, p => LedgerDigestPayload.Sized p
  | ledgerDelta, p => LedgerDeltaPayload.Sized p
  | heartbeat, p => Fits (Wire.HeartbeatPayload.nodeId p)
  | syncSummary, p => Wire.SyncSummaryPayload.Sized p

lemma decode_encode_payload (t : PayloadType) (p : t.Payload) (h : t.Sized p) :
    t.decode (t.encode p) = .ok p := by
  cases t with
  | hello => exact Wire.HelloPayload.decode_encode h
  | confirm => exact decodeWith_of_reads (Wire.ConfirmPayload.reads h)
  | digest => exact decodeWith_of_reads (DigestPayload.reads h)
  | deltaResponse => exact decodeWith_of_reads (DeltaResponsePayload.reads h)
  | opBroadcast => exact decodeWith_of_reads (OpBroadcastPayload.reads h)
  | transitQuery => exact decodeWith_of_reads (Wire.TransitQueryPayload.reads p)
  | transitResponse => exact TransitResponsePayload.decode_encode h
  | transitClaim => exact decodeWith_of_reads (Wire.TransitClaimPayload.reads h)
  | transitHeld => exact decodeWith_of_reads (Wire.TransitHeldPayload.reads h)
  | mergeReceipt => exact decodeWith_of_reads (MergeReceipt.reads h)
  | ledgerDigest => exact decodeWith_of_reads (LedgerDigestPayload.reads h)
  | ledgerDelta => exact LedgerDeltaPayload.decode_encode h
  | heartbeat => exact decodeWith_of_reads (Wire.HeartbeatPayload.reads h)
  | syncSummary => exact Wire.SyncSummaryPayload.decode_encode h

/-- **The round trip**: every payload type decodes what it encodes, and the two sides of a handshake
build the same transcript from the HELLOs they have decoded. -/
theorem wire_round_trip :
    (∀ (t : PayloadType) (p : t.Payload), t.Sized p → t.decode (t.encode p) = .ok p) ∧
      ∀ client server : Wire.HelloPayload, client.Sized → server.Sized →
        ∃ client' server', Wire.HelloPayload.decode client.encode = .ok client' ∧
          Wire.HelloPayload.decode server.encode = .ok server' ∧
          Wire.transcriptMessage client.raw server'.raw =
            Wire.transcriptMessage client'.raw server.raw :=
  ⟨decode_encode_payload, fun _ _ hclient hserver => Wire.transcript_eq hclient hserver⟩

/-- A held document. -/
def sampleEntry : TransitEntry where
  collection := text "c"
  key := text "k"
  keyHash := [1]
  encodedDoc := [2]
  intentLsn := 3
  holderNode := [4]
  docSizeBytes := 1
  chunkIndex := 0
  chunkTotal := 1
  contentHash := [5]
  holderSig := [6]

/-- A response with one document. -/
def sampleResponse : TransitResponsePayload where
  entries := [sampleEntry]
  truncated := true
  nextOffset := 1

theorem wire_round_trip_sample :
    TransitResponsePayload.decode sampleResponse.encode = .ok sampleResponse := by
  refine wire_round_trip.1 .transitResponse sampleResponse ⟨?_, ?_⟩
  · unfold Fits
    decide
  · simp only [sampleResponse, sampleEntry, mem_singleton, forall_eq, TransitEntry.Sized,
      TransitEntry.SizedV1, Fits]
    decide

end PayloadType

end DeSentry
