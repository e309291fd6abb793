import DeSentry.Properties.PruneCrash

/-!
# Opening a v1 ledger

`Open` is to upgrade a ledger in the v1 format: it reads the v1 bodies, gives the records v2 hashes
and rewrites the file.  The rewrite is the last thing it does.  Before that it verifies the chain,
with the two hash formulas of v2 and v3, and a v1 entry carries neither.  So the upgrade is reached
only by v1 files whose hashes are v2 hashes (`v1_upgrade_iff`), and with the hash of v1, whatever
it covers, `Open` refuses the file (`v1_hash_refused`).

The other conditions are at the edges: the first bytes of a v1 body are its LSN, which must not
look like one of the magics, and a body grows when it is upgraded.
-/

namespace DeSentry

open ByteCodec FrameLog WriteAheadLog ByteWriter WalRecord List

variable {c : Crypto}

/-! ## v1 bodies -/

/-- What a v1 body holds. -/
structure V1Entry where
  lsn : Int64
  type : WalRecordType
  collection : Bytes
  key : Bytes
  documentBytes : Bytes
  prevHash : Bytes
  entryHash : Bytes
  deriving DecidableEq, Repr

namespace V1Entry

/-- The body `DecodeBodyV1` reads. -/
def encode (e : V1Entry) : Bytes :=
  u64 e.lsn.toUInt64 ++ (u8 e.type.value ++
    (bytes e.collection ++ (bytes e.key ++
      (bytes e.documentBytes ++ (e.prevHash ++ e.entryHash)))))

/-- The record `DecodeBodyV1` makes of it. -/
def record (c : Crypto) (e : V1Entry) : WalRecord :=
  { lsn := e.lsn, type := e.type, collection := e.collection, key := e.key
    documentBytes := e.documentBytes, keyHash := ledgerKeyHash c e.collection e.key
    prevHash := e.prevHash, entryHash := e.entryHash }

/-- A whole frame of the ledger: hashes of the right length, a size the reader considers, an LSN an
`Append` can assign. -/
structure WellFormed (e : V1Entry) : Prop where
  length_prevHash : e.prevHash.length = kWalHashLen
  length_entryHash : e.entryHash.length = kWalHashLen
  fits : walFormat.Fits e.encode
  lsn_nonneg : 0 ≤ e.lsn
  lsn_ne : e.lsn ≠ Int64.maxValue

variable {e : V1Entry}

lemma length_encode (e : V1Entry) : e.encode.length =
    21 + e.collection.length + e.key.length + e.documentBytes.length + e.prevHash.length +
      e.entryHash.length := by
  simp only [encode, length_append, length_u64, length_u8,
    length_bytes]
  omega

namespace WellFormed

lemma length_lt (h : e.WellFormed) : e.encode.length < 2 ^ 28 := by
  have hfit : e.encode.length + 4 ≤ 2 ^ 28 := h.fits.2
  omega

lemma blobs_lt (h : e.WellFormed) : e.collection.length < 2 ^ 28 ∧ e.key.length < 2 ^ 28 ∧
    e.documentBytes.length < 2 ^ 28 := by
  have hlt := h.length_lt
  rw [length_encode] at hlt
  omega

lemma decodeBodyV1_encode (h : e.WellFormed) : decodeBodyV1 c e.encode = .ok (e.record c) := by
  have hlen := length_encode e
  obtain ⟨hcoll, hkey, hdoc⟩ := h.blobs_lt
  rw [h.length_prevHash, h.length_entryHash, kWalHashLen] at hlen
  have hlong : ¬ e.encode.length < kMinBodyLenV1 - 4 := by
    rw [kMinBodyLenV1]
    omega
  have hdrop : e.encode.drop 9 = (bytes e.collection ++ (bytes e.key ++
      bytes e.documentBytes)) ++ (e.prevHash ++ e.entryHash) := by
    rw [encode, ← append_assoc, drop_left' (by simp)]
    simp only [append_assoc]
  have hblobs : Reads readBlobsV1 (bytes e.collection ++ (bytes e.key ++
      bytes e.documentBytes)) (e.collection, e.key, e.documentBytes) :=
    (reads_bytes (by omega)).bind <| (reads_bytes (by omega)).bind (reads_bytes (by omega)).map
  have hroom : ¬ (e.prevHash ++ e.entryHash).length < 2 * kWalHashLen := by
    rw [length_append, h.length_prevHash, h.length_entryHash]
    omega
  have hlsn : (UInt64.ofNat (leValue (e.encode.take 8))).toInt64 = e.lsn := by
    have hlt : e.lsn.toUInt64.toNat < 256 ^ 8 := e.lsn.toUInt64.toNat_lt
    rw [encode, take_left' (length_u64 _), u64, leValue_leBytes,
      Nat.mod_eq_of_lt hlt, UInt64.ofNat_toNat]
    rfl
  have htype : (e.encode.drop 8).headD 0 = e.type.value := by
    rfl
  unfold decodeBodyV1
  simp only [if_neg hlong, hdrop, hblobs _, if_neg hroom, hlsn, htype,
    take_left' h.length_prevHash, drop_left' h.length_prevHash,
    take_of_length_le h.length_entryHash.le]
  rfl

end WellFormed

end V1Entry

/-! ## A v1 body taken for a v2 body -/

/-- A result, if there is one, has the LSN and the type. -/
def HeadIs (lsn : Int64) (type : WalRecordType) (result : Except Status WalRecord) : Prop :=
  ∀ r, result = .ok r → r.lsn = lsn ∧ r.type = type

variable {lsn : Int64} {type : WalRecordType}

lemma headIs_error (st : Status) :
    HeadIs lsn type (.error st) := fun _ h => by cases h

lemma yields_headIs_readTail (r : WalRecord) : Yields (readTail r) (HeadIs r.lsn r.type) := by
  refine yields_skip fun n => ?_
  split_ifs
  · exact Yields.pure (headIs_error _)
  · refine Yields.bind (P := fun r' => r'.lsn = r.lsn ∧ r'.type = r.type) ?_ fun r' hr' =>
      Yields.pure fun r'' h => ?_
    · exact yields_skip fun _ => yields_skip fun _ =>
        yields_skip fun _ => yields_skip fun _ => Yields.pure ⟨rfl, rfl⟩
    · unfold checkChunks at h
      split_ifs at h
      obtain rfl := Except.ok.inj h
      exact hr'
  · refine Yields.pure fun r' h => ?_
    obtain rfl := Except.ok.inj h
    exact ⟨rfl, rfl⟩

lemma yields_headIs_readChain (r : WalRecord) (contentPrev : Bytes) :
    Yields (readChain r contentPrev) (HeadIs r.lsn r.type) := by
  refine yields_skip fun n => ?_
  split_ifs
  · exact Yields.pure (headIs_error _)
  · refine yields_skip fun prevHash => ?_
    split_ifs
    · exact Yields.pure (headIs_error _)
    · exact yields_skip fun entryHash => yields_headIs_readTail _

lemma headIs_of_yields {get : ByteReader (Except Status WalRecord)}
    (h : Yields get (HeadIs lsn type)) (bytes : Bytes) :
    HeadIs lsn type (match get.run bytes with
      | .ok (result, _) => result
      | .error what => .error ⟨.corruption, text "WAL: malformed v2 record: " ++ text what⟩) := by
  cases hrun : get.run bytes with
  | ok x => exact h bytes x.1 x.2 hrun
  | error what => exact headIs_error _

/-- The LSN and the type of a decoded body stand behind its magic. -/
lemma headIs_decodeBody (magic : UInt32) (lsn : UInt64) (type : UInt8) (rest : Bytes) :
    HeadIs lsn.toInt64 ⟨type⟩ (decodeBody (u32 magic ++ (u64 lsn ++
      (u8 type ++ rest)))) := by
  rw [decodeBody, readBody, (reads_u32 magic).run_bind]
  split_ifs
  · exact headIs_error _
  simp only [readContentFields, bind_assoc, pure_bind]
  rw [(reads_u64 lsn).run_bind, (reads_u8 type).run_bind]
  refine headIs_of_yields ?_ rest
  -- eight more fields, the content's hash and the signature
  iterate 10 refine yields_skip fun _ => ?_
  exact yields_headIs_readChain _ _

variable {bs : Bytes}

lemma u32_leValue (h : bs.length = 4) :
    u32 (UInt32.ofNat (leValue bs)) = bs := by
  have hlt : leValue bs < 2 ^ 32 := leValue_lt_of_length h
  rw [u32, UInt32.toNat_ofNat', Nat.mod_eq_of_lt hlt, ← h, leBytes_leValue]

lemma u64_leValue (h : bs.length = 8) :
    u64 (UInt64.ofNat (leValue bs)) = bs := by
  have hlt : leValue bs < 2 ^ 64 := leValue_lt_of_length h
  rw [u64, UInt64.toNat_ofNat', Nat.mod_eq_of_lt hlt, ← h, leBytes_leValue]

variable {r : WalRecord}

/-- **A v1 body that looks like a v2 body does not decode to its own LSN and type**: its collection
would have to be longer than a record can be. -/
lemma V1Entry.WellFormed.not_confused {e : V1Entry} (h : e.WellFormed)
    (hmagic : hasBodyMagic e.encode = true) (hd : decodeBody e.encode = .ok r) :
    ¬ (r.lsn = e.lsn ∧ r.type = e.type) := by
  rintro ⟨hlsn, htype⟩
  obtain ⟨hcoll, -⟩ := h.blobs_lt
  generalize hn : e.lsn.toUInt64.toNat = n
  generalize hlen : e.collection.length = len at hcoll
  have hnlt : n < 2 ^ 64 := hn ▸ e.lsn.toUInt64.toNat_lt
  -- the body, cut where the two readers look
  obtain ⟨rest, hbody⟩ : ∃ rest, e.encode = leBytes 4 n ++
      ((leBytes 4 (n / 256 ^ 4) ++ (e.type.value :: leBytes 3 len)) ++
        (u8 (UInt8.ofNat (len / 256 ^ 3)) ++ rest)) := by
    have hcut : u32 (UInt32.ofNat len) =
        leBytes 3 len ++ u8 (UInt8.ofNat (len / 256 ^ 3)) := by
      rw [u32, UInt32.toNat_ofNat', Nat.mod_eq_of_lt (by omega)]
      exact leBytes_add 3 1 len
    have hlsn8 : u64 e.lsn.toUInt64 = leBytes 4 n ++ leBytes 4 (n / 256 ^ 4) := by
      rw [u64, hn]
      exact leBytes_add 4 4 n
    refine ⟨e.collection ++ (bytes e.key ++ (bytes e.documentBytes ++
      (e.prevHash ++ e.entryHash))), ?_⟩
    rw [V1Entry.encode, bytes, hlen, hcut, hlsn8]
    simp [u8]
  generalize hm : leValue (leBytes 4 (n / 256 ^ 4) ++ (e.type.value :: leBytes 3 len)) = m
  have hmiddle : m = n / 256 ^ 4 + 256 ^ 4 * (e.type.value.toNat + 256 * (len % 256 ^ 3)) := by
    rw [← hm, leValue_append, leValue, length_leBytes, leValue_leBytes, leValue_leBytes,
      Nat.mod_eq_of_lt (show n / 256 ^ 4 < 256 ^ 4 by omega)]
  have hfirst : n % 256 ^ 4 = 0x44535732 ∨ n % 256 ^ 4 = 0x44535733 := by
    have htake : leValue (e.encode.take 4) = n % 256 ^ 4 := by
      rw [hbody, take_left' (length_leBytes ..), leValue_leBytes]
    rw [hasBodyMagic, htake, Bool.and_eq_true, Bool.or_eq_true] at hmagic
    exact hmagic.2.imp beq_iff_eq.mp beq_iff_eq.mp
  -- what the v2 reader takes for LSN and type
  have hmlen : (leBytes 4 (n / 256 ^ 4) ++ (e.type.value :: leBytes 3 len)).length = 8 := by simp
  have hhead : HeadIs (UInt64.ofNat m).toInt64 ⟨UInt8.ofNat (len / 256 ^ 3)⟩
      (decodeBody e.encode) := by
    rw [hbody, ← u32_leValue (length_leBytes 4 n), ← u64_leValue hmlen, hm]
    exact headIs_decodeBody _ _ _ _
  obtain ⟨hlsn', htype'⟩ := hhead r hd
  have hmn : m = n := by
    have hm' : (UInt64.ofNat m).toInt64 = e.lsn := hlsn'.symm.trans hlsn
    have hmlt : m < 2 ^ 64 := by
      rw [← hm]
      exact leValue_lt_of_length hmlen
    rw [← hn, ← hm', UInt64.toUInt64_toInt64, UInt64.toNat_ofNat', Nat.mod_eq_of_lt hmlt]
  have htop : e.type.value.toNat = len / 256 ^ 3 % 256 := by
    have hvalue := congrArg (fun t : WalRecordType => t.value.toNat) (htype.symm.trans htype')
    exact hvalue.trans UInt8.toNat_ofNat'
  omega

/-! ## How long a decoded record is -/

section Within

variable {n : ℕ}

lemma yieldsWithin_uint (w : ℕ) : YieldsWithin n (ByteReader.uint w) fun _ => True :=
  (yieldsWithin_take _ n w).bind fun _ _ => YieldsWithin.pure trivial

lemma yieldsWithin_u8 : YieldsWithin n ByteReader.u8 fun _ => True :=
  (yieldsWithin_uint 1).bind fun _ _ => YieldsWithin.pure trivial

lemma yieldsWithin_u32 : YieldsWithin n ByteReader.u32 fun _ => True :=
  (yieldsWithin_uint 4).bind fun _ _ => YieldsWithin.pure trivial

lemma yieldsWithin_u64 : YieldsWithin n ByteReader.u64 fun _ => True :=
  (yieldsWithin_uint 8).bind fun _ _ => YieldsWithin.pure trivial

lemma yieldsWithin_bytes : YieldsWithin n ByteReader.bytes (·.length ≤ n) :=
  yieldsWithin_u32.bind fun _ _ => yieldsWithin_take _ n _

lemma yieldsWithin_remaining : YieldsWithin n ByteReader.remaining fun _ => True := by
  intro s a s' hs hrun
  obtain ⟨-, rfl⟩ := Prod.mk.inj (Except.ok.inj hrun)
  exact ⟨trivial, hs⟩

/-- A result, if there is one, has no blob longer than `n`. -/
def BlobsWithin (n : ℕ) (result : Except Status WalRecord) : Prop :=
  ∀ r, result = .ok r → ∀ b ∈ r.blobs, b.length ≤ n

lemma blobsWithin_error (st : Status) : BlobsWithin n (.error st) := fun _ h => by cases h

lemma yieldsWithin_readTail {r : WalRecord} (hr : ∀ b ∈ r.blobs, b.length ≤ n) :
    YieldsWithin n (readTail r) (BlobsWithin n) := by
  refine yieldsWithin_remaining.bind fun k _ => ?_
  split_ifs
  · exact YieldsWithin.pure (blobsWithin_error _)
  · refine YieldsWithin.bind (P := fun r' => ∀ b ∈ r'.blobs, b.length ≤ n) ?_ fun r' hr' =>
      YieldsWithin.pure fun r'' h => ?_
    · obtain ⟨hcoll, hkey, hdoc, hhash, hnode, horigin, hsig, -⟩ := forall_blobs.mp hr
      exact yieldsWithin_bytes.bind fun _ hholder => yieldsWithin_u64.bind fun _ _ =>
        yieldsWithin_u32.bind fun _ _ => yieldsWithin_u32.bind fun _ _ => YieldsWithin.pure
          (forall_blobs.mpr ⟨hcoll, hkey, hdoc, hhash, hnode, horigin, hsig, hholder⟩)
    · unfold checkChunks at h
      split_ifs at h
      obtain rfl := Except.ok.inj h
      exact hr'
  · refine YieldsWithin.pure fun r' h => ?_
    obtain rfl := Except.ok.inj h
    exact hr

lemma yieldsWithin_contentFields :
    YieldsWithin n readContentFields fun r => ∀ b ∈ r.blobs, b.length ≤ n :=
  yieldsWithin_u64.bind fun _ _ => yieldsWithin_u8.bind fun _ _ =>
    yieldsWithin_bytes.bind fun _ hcoll => yieldsWithin_bytes.bind fun _ hkey =>
    yieldsWithin_bytes.bind fun _ hdoc => yieldsWithin_bytes.bind fun _ hhash =>
    yieldsWithin_u64.bind fun _ _ => yieldsWithin_u32.bind fun _ _ =>
    yieldsWithin_bytes.bind fun _ hnode => yieldsWithin_bytes.bind fun _ horigin =>
    YieldsWithin.pure (forall_blobs.mpr
      ⟨hcoll, hkey, hdoc, hhash, hnode, horigin, Nat.zero_le _, Nat.zero_le _⟩)

lemma yieldsWithin_contentPrev (positionBound : Bool) :
    YieldsWithin n (readContentPrev positionBound) fun _ => True := by
  unfold readContentPrev
  split_ifs
  · exact fun s a s' hs hrun => ⟨trivial, (yieldsWithin_take _ n _ s a s' hs hrun).2⟩
  · exact YieldsWithin.pure trivial

lemma yieldsWithin_readBody : YieldsWithin n readBody (BlobsWithin n) := by
  refine yieldsWithin_u32.bind fun magic _ => ?_
  split_ifs
  · exact YieldsWithin.pure (blobsWithin_error _)
  · refine yieldsWithin_contentFields.bind fun r hr => (yieldsWithin_contentPrev _).bind
      fun contentPrev _ => yieldsWithin_bytes.bind fun sig hsig => ?_
    obtain ⟨hcoll, hkey, hdoc, hhash, hnode, horigin, -, hholder⟩ := forall_blobs.mp hr
    refine yieldsWithin_remaining.bind fun k _ => ?_
    split_ifs
    · exact YieldsWithin.pure (blobsWithin_error _)
    · refine (yieldsWithin_take _ n _).bind fun prev _ => ?_
      split_ifs
      · exact YieldsWithin.pure (blobsWithin_error _)
      · exact (yieldsWithin_take _ n _).bind fun entry _ => yieldsWithin_readTail
          (forall_blobs.mpr
            ⟨hcoll, hkey, hdoc, hhash, hnode, horigin, hsig, hholder⟩)

/-- No field of a decoded record is longer than the body. -/
lemma blobsWithin_decodeBody (body : Bytes) : BlobsWithin body.length (decodeBody body) := by
  rw [decodeBody]
  cases hrun : readBody.run body with
  | error what => exact blobsWithin_error _
  | ok x => exact (yieldsWithin_readBody body x.1 x.2 le_rfl hrun).1

end Within

/-- A record the reader returns from a body of at most 256 MiB. -/
structure WalRecord.Compact (r : WalRecord) : Prop where
  wellFormed : r.WellFormed
  chunksOk : r.ChunksOk
  blobs_le : ∀ b ∈ r.blobs, b.length ≤ 2 ^ 28

/-- Its body has an exact length field. -/
lemma WalRecord.Compact.length_encodeBody_lt (h : r.Compact) :
    (encodeBody r).length + 4 < 2 ^ 32 := by
  obtain ⟨hcoll, hkey, hdoc, hhash, hnode, horigin, hsig, hholder⟩ :=
    forall_blobs.mp h.blobs_le
  have hcontent : (if r.positionBound then r.prevHash else []).length ≤ 32 := by
    split_ifs
    · exact h.wellFormed.length_prevHash.le
    · exact Nat.zero_le _
  have htail : (bodyTail r).length ≤ r.transitHolder.length + 20 := by
    rw [bodyTail]
    split_ifs
    · simp [transitTail]
    · exact Nat.zero_le _
  have hprev := h.wellFormed.length_prevHash
  have hentry := h.wellFormed.length_entryHash
  rw [kWalHashLen] at hprev hentry
  rw [encodeBody_eq]
  simp only [length_append, contentFields, length_u32, length_u64,
    length_u8, length_bytes]
  omega

/-! ## Reading a v1 file -/

namespace V1Entry

/-- The body is taken for a v1 body: its LSN does not look like a magic. -/
def Recognised (e : V1Entry) : Prop :=
  hasBodyMagic e.encode = false ∧ AtRest.looksSealedRecord e.encode = false

instance (e : V1Entry) : Decidable e.Recognised := inferInstanceAs (Decidable (_ ∧ _))

/-- What an upgrade has to keep. -/
def fields (e : V1Entry) : Int64 × WalRecordType × Bytes × Bytes × Bytes :=
  (e.lsn, e.type, e.collection, e.key, e.documentBytes)

end V1Entry

/-- The fields of a record that a v1 body holds, without the hashes. -/
def WalRecord.v1Fields (r : WalRecord) : Int64 × WalRecordType × Bytes × Bytes × Bytes :=
  (r.lsn, r.type, r.collection, r.key, r.documentBytes)

section Reading

variable {e : V1Entry} {entries : List V1Entry} {s s' : ReadState}

lemma unsealPayload_plain {p : Bytes} (h : AtRest.looksSealedRecord p = false) :
    unsealPayload c [] p = .ok p := by
  simp [unsealPayload, h]

lemma readRecord_recognised (h : e.WellFormed) (hr : e.Recognised) :
    readRecord c [] s e.encode = acceptRecord s (e.record c) true := by
  rw [readRecord, unsealPayload_plain hr.2]
  simp only [hr.1, Bool.false_eq_true, if_false, h.decodeBodyV1_encode]

lemma V1Entry.WellFormed.compact_record (h : e.WellFormed) : (e.record c).Compact := by
  obtain ⟨hwf, hchunks⟩ := decodesWell_decodeBodyV1 c e.encode _ h.decodeBodyV1_encode
  obtain ⟨hcoll, hkey, hdoc⟩ := h.blobs_lt
  have hhash : (ledgerKeyHash c e.collection e.key).length ≤ 2 ^ 28 := by
    rw [ledgerKeyHash, c.length_sha256]
    decide
  exact ⟨hwf, hchunks, forall_blobs.mpr ⟨hcoll.le, hkey.le, hdoc.le, hhash,
    Nat.zero_le _, Nat.zero_le _, Nat.zero_le _, Nat.zero_le _⟩⟩

/-- What the reader makes of a v1 body: its record, or something with another LSN or type. -/
lemma readRecord_v1_accept (h : e.WellFormed) (hj : readRecord c [] s e.encode = .accept s') :
    ∃ r, s'.records = s.records ++ [r] ∧ r.Compact ∧
      (r.v1Fields = e.fields → e.Recognised ∧ r = e.record c) := by
  have hplain : AtRest.looksSealedRecord e.encode = false := by
    obtain ⟨-, -, -, -, -, hlook⟩ := readRecord_accept hj
    exact hlook.trans (by simp)
  rw [readRecord, unsealPayload_plain hplain] at hj
  simp only at hj
  split_ifs at hj with hmagic
  · cases hd : decodeBody e.encode with
    | error st =>
      rw [hd] at hj
      cases hj
    | ok r =>
      rw [hd] at hj
      obtain ⟨hwf, hchunks⟩ := decodesWell_decodeBody _ r hd
      have hblobs := blobsWithin_decodeBody _ r hd
      refine ⟨r, (acceptRecord_accept hj).1,
        ⟨hwf, hchunks, fun b hb => (hblobs b hb).trans h.length_lt.le⟩, fun hsame => ?_⟩
      have hlsn : r.lsn = e.lsn := congrArg (·.1) hsame
      have htype : r.type = e.type := congrArg (·.2.1) hsame
      exact absurd ⟨hlsn, htype⟩ (h.not_confused hmagic hd)
  · rw [h.decodeBodyV1_encode] at hj
    exact ⟨e.record c, (acceptRecord_accept hj).1, h.compact_record, fun _ =>
      ⟨⟨Bool.eq_false_of_not_eq_true hmagic, hplain⟩, rfl⟩⟩

/-- The records of a v1 file are its entries, if they have the entries' fields. -/
lemma records_of_run_v1 (hwf : ∀ e ∈ entries, e.WellFormed)
    (hrun : Format.run (readRecord c []) s (entries.map V1Entry.encode) = some s') :
    ∃ rs, s'.records = s.records ++ rs ∧ rs.length = entries.length ∧ (∀ r ∈ rs, r.Compact) ∧
      (rs.map v1Fields = entries.map V1Entry.fields →
        (∀ e ∈ entries, e.Recognised) ∧ rs = entries.map (V1Entry.record c)) := by
  induction entries generalizing s with
  | nil =>
    obtain rfl : s = s' := Option.some_injective _ hrun
    exact ⟨[], (append_nil _).symm, rfl, by simp, fun _ => ⟨by simp, rfl⟩⟩
  | cons e entries ih =>
    rw [forall_mem_cons] at hwf
    obtain ⟨s₁, hj, hrun⟩ := Format.run_cons.mp hrun
    obtain ⟨r, hr, hcompact, hrec⟩ := readRecord_v1_accept hwf.1 hj
    obtain ⟨rs, hrs, hlen, hcompacts, hall⟩ := ih hwf.2 hrun
    refine ⟨r :: rs, by rw [hrs, hr, append_assoc, singleton_append],
      congrArg (· + 1) hlen, forall_mem_cons.mpr ⟨hcompact, hcompacts⟩, fun hsame => ?_⟩
    rw [map_cons, map_cons, List.cons.injEq] at hsame
    obtain ⟨hrecognised, rfl⟩ := hrec hsame.1
    obtain ⟨hrest, rfl⟩ := hall hsame.2
    exact ⟨forall_mem_cons.mpr ⟨hrecognised, hrest⟩, rfl⟩

/-- A record that continues the numbering is accepted. -/
lemma acceptRecord_next {r : WalRecord} (v1 : Bool) (h : s.expectedLsn ≤ r.lsn) :
    acceptRecord s r v1 =
      .accept ⟨s.records ++ [r], r.lsn + 1, s.migratedFromV1 || v1⟩ := by
  rw [acceptRecord, if_neg fun hback => Int64.not_lt.mpr h hback.2, if_pos h]

/-- Reading the entries of a v1 file. -/
lemma run_v1 (hwf : ∀ e ∈ entries, e.WellFormed) (hrec : ∀ e ∈ entries, e.Recognised)
    (hord : entries.Pairwise (·.lsn < ·.lsn)) :
    Format.run (readRecord c []) {} (entries.map V1Entry.encode) =
      some ⟨entries.map (V1Entry.record c), lsnAfter (entries.map (V1Entry.record c)),
        !entries.isEmpty⟩ := by
  induction entries using List.reverseRecOn with
  | nil => rfl
  | append_singleton entries e ih =>
    rw [forall_mem_append] at hwf hrec
    obtain ⟨hord', -, hlast⟩ := pairwise_append.mp hord
    obtain ⟨he, hre⟩ := And.intro (hwf.2 e (by simp)) (hrec.2 e (by simp))
    have hle : lsnAfter (entries.map (V1Entry.record c)) ≤ e.lsn := by
      cases entries using List.reverseRecOn with
      | nil => exact he.lsn_nonneg
      | append_singleton entries e' =>
        rw [map_append, map_singleton, lsnAfter_concat]
        exact lsn_succ_le (hlast e' (by simp) e (by simp))
    have hstep := acceptRecord_next (s := ⟨entries.map (V1Entry.record c),
      lsnAfter (entries.map (V1Entry.record c)), !entries.isEmpty⟩) (r := e.record c) true hle
    rw [map_append, Format.run_append (ih hwf.1 hrec.1 hord'), map_singleton, Format.run,
      readRecord_recognised he hre, hstep]
    simp [Format.run]

end Reading

/-! ## The rewritten file -/

section Rewritten

variable {us : List WalRecord} {s s' : ReadState} {read : ReadResult}

lemma run_encodeBody (hus : ∀ u ∈ us, u.Compact)
    (hrun : Format.run (readRecord c []) s (us.map encodeBody) = some s') :
    s'.records = s.records ++ us := by
  induction us generalizing s with
  | nil =>
    obtain rfl : s = s' := Option.some_injective _ hrun
    exact (append_nil _).symm
  | cons u us ih =>
    rw [forall_mem_cons] at hus
    obtain ⟨s₁, hj, hrun⟩ := Format.run_cons.mp hrun
    have hplain : sealPayload c (.error []) [] (encodeBody u) = .ok (encodeBody u) := rfl
    rw [readRecord_of_chunksOk hplain hus.1.wellFormed hus.1.chunksOk] at hj
    rw [ih hus.2 hrun, (acceptRecord_accept hj).1, append_assoc, singleton_append]

/-- A file of written records that is read to its end returns them, and none is too long. -/
lemma records_of_written (hus : ∀ u ∈ us, u.Compact)
    (hread : readAllLocked c [] (walFormat.frames (us.map encodeBody)) = .ok read)
    (hlen : us.length ≤ read.records.length) :
    (∀ u ∈ us, walFormat.Fits (encodeBody u)) ∧ read.records = us := by
  have hexp : walFormat.Exposed (us.map encodeBody) [] := by
    refine Format.exposed_of_lt (fun p hp => ?_) []
    obtain ⟨u, hu, rfl⟩ := mem_map.mp hp
    exact (hus u hu).length_encodeBody_lt
  have hreplay : read.records =
      (walFormat.replay (readRecord c []) {} (walFormat.frames (us.map encodeBody))).1.records := by
    rw [readAllLocked] at hread
    rcases hwalk : walFormat.replay (readRecord c []) {} (walFormat.frames (us.map encodeBody)) with
      ⟨t, stop⟩
    rw [hwalk] at hread
    cases stop with
    | clean => exact congrArg ReadResult.records (Except.ok.inj hread).symm
    | corrupt => exact congrArg ReadResult.records (Except.ok.inj hread).symm
    | thrown => cases hread
  have hcount : ({} : ReadState).records.length + (us.map encodeBody).length ≤
      (walFormat.replay (readRecord c []) {}
        (walFormat.frames (us.map encodeBody) ++ [])).1.records.length := by
    rw [append_nil, ← hreplay, length_map]
    exact (Nat.zero_add _).le.trans hlen
  obtain ⟨hfit, s', hrun⟩ := Format.frames_accepted
    (fun s p s' (h : readRecord c [] s p = .accept s') => length_records_readRecord h) hexp hcount
  have hwalk := Format.replay_frames hfit hrun []
  rw [append_nil, Format.replay_nil] at hwalk
  refine ⟨fun u hu => hfit _ (mem_map_of_mem hu), ?_⟩
  rw [hreplay, hwalk, run_encodeBody hus hrun]
  rfl

/-- The migration of one record. -/
def migrated (c : Crypto) (prev : Bytes) (r : WalRecord) : WalRecord :=
  let r := { r with prevHash := prev, positionBound := false }
  { r with entryHash := c.sha256 (buildContentLegacy r ++ prev) }

lemma migrateV1_cons (prev : Bytes) (rs : List WalRecord) : migrateV1 c prev (r :: rs) =
      migrated c prev r :: migrateV1 c (migrated c prev r).entryHash rs := rfl

variable {r : WalRecord} {prev : Bytes}

lemma WalRecord.Compact.migrated (h : r.Compact) (hprev : prev.length = kWalHashLen) :
    (migrated c prev r).Compact :=
  ⟨⟨h.wellFormed.blobs_lt, hprev, c.length_sha256 _, h.wellFormed.whole⟩, h.chunksOk, h.blobs_le⟩

variable {rs : List WalRecord}

/-- The migration keeps the fields of v1. -/
lemma migrateV1_spec (hrs : ∀ r ∈ rs, r.Compact) (hprev : prev.length = kWalHashLen) :
    (∀ u ∈ migrateV1 c prev rs, u.Compact) ∧
      (migrateV1 c prev rs).map v1Fields = rs.map v1Fields := by
  induction rs generalizing prev with
  | nil => exact ⟨by simp [migrateV1], rfl⟩
  | cons r rs ih =>
    rw [forall_mem_cons] at hrs
    obtain ⟨hcompact, hfields⟩ := ih hrs.2 (c.length_sha256 _)
    rw [migrateV1_cons, forall_mem_cons]
    exact ⟨⟨hrs.1.migrated hprev, hcompact⟩, congrArg (r.v1Fields :: ·) hfields⟩

lemma originSignature_migrateV1 (hrs : ∀ r ∈ rs, r.originSignature = []) (prev : Bytes) :
    ∀ u ∈ migrateV1 c prev rs, u.originSignature = [] := by
  induction rs generalizing prev with
  | nil => exact fun _ h => by cases h
  | cons r rs ih =>
    rw [forall_mem_cons] at hrs
    exact forall_mem_cons.mpr ⟨hrs.1, ih hrs.2 _⟩

/-- Of records without a signature the migration makes what a prune would. -/
lemma migrateV1_eq_rechain (hrs : ∀ r ∈ rs, r.positionBound = false ∧ r.originSignature = [])
    (prev : Bytes) :
    migrateV1 c prev rs = rechain c prev rs := by
  induction rs generalizing prev with
  | nil => rfl
  | cons r rs ih =>
    rw [forall_mem_cons] at hrs
    have hsame : migrated c prev r = relink c prev r := by
      cases r
      simp_all [migrated, relink]
    rw [migrateV1_cons, rechain, ih hrs.2, hsame]

/-- The body does not grow or shrink with the links. -/
lemma length_encodeBody_migrated (hr : r.WellFormed) (hbound : r.positionBound = false)
    (hprev : prev.length = kWalHashLen) :
    (encodeBody (migrated c prev r)).length = (encodeBody r).length := by
  have hlen := hr.length_prevHash
  have hentry := hr.length_entryHash
  have hnew : (migrated c prev r).entryHash.length = kWalHashLen := c.length_sha256 _
  have hfields : contentFields (migrated c prev r) = contentFields r := rfl
  have htail : bodyTail (migrated c prev r) = bodyTail r := rfl
  have hlink : (migrated c prev r).prevHash.length = kWalHashLen := hprev
  have hlegacy : (migrated c prev r).positionBound = false := rfl
  have hsig : (migrated c prev r).originSignature = r.originSignature := rfl
  rw [encodeBody_eq, encodeBody_eq, hfields, htail, hsig, hlegacy, hbound]
  simp only [length_append, length_u32, hnew, hlink, hentry, hlen]
  rfl

/-- Every record is migrated. -/
lemma exists_migrated (hr : r ∈ rs) (hprev : prev.length = kWalHashLen) :
    ∃ prev', prev'.length = kWalHashLen ∧ migrated c prev' r ∈ migrateV1 c prev rs := by
  induction rs generalizing prev with
  | nil => cases hr
  | cons r' rs ih =>
    rcases mem_cons.mp hr with rfl | hr
    · exact ⟨prev, hprev, mem_cons_self⟩
    · obtain ⟨prev', hlen, hmem⟩ := ih hr (c.length_sha256 _)
      exact ⟨prev', hlen, mem_cons_of_mem _ hmem⟩

/-- The migration of a plaintext ledger when nothing fails. -/
lemma migrate_plain {env : RewriteEnv} (henv : env.Works) {wal : WriteAheadLog}
    (hkey : wal.subkey = []) (disk : WalDisk) (hmig : read.migratedFromV1 = true) :
    wal.migrate c env disk read =
      (.ok { wal with
          isOpen := true, migratedFromV1 := true
          preMigrationTipHash := lastHash read.records
          tipHash := lastHash (migrateV1 c genesisHash read.records) },
        writeHwmBestEffort env.hwm (wal.nextLsn - 1)
          (lastHash (migrateV1 c genesisHash read.records))
          { disk with
            file := walFormat.frames ((migrateV1 c genesisHash read.records).map encodeBody) }) := by
  unfold migrate
  simp only [hmig, Bool.not_true, Bool.false_eq_true, if_false]
  rw [rewriteLocked_plain henv (by exact hkey)]

end Rewritten

/-! ## The upgrade -/

/-- Nothing fails while the ledger is opened. -/
structure OpenEnv.Works (env : OpenEnv) : Prop where
  created : env.created = true
  opened : env.opened = true
  rewrite : env.rewrite.Works
  hwm : env.rewrite.hwm = .written

/-- `Open` upgrades the file of the entries: it succeeds, the entries are in the ledger, and the
file it leaves can be opened and verified. -/
def Upgrades (c : Crypto) (env : OpenEnv) (walFile : Bytes) (disk : WalDisk)
    (entries : List V1Entry) : Prop :=
  ∃ wal disk' rs, openLog c env walFile [] disk = (.ok wal, disk') ∧
    wal.readAll c disk' = .ok rs ∧ rs.map v1Fields = entries.map V1Entry.fields ∧
    ∃ wal₂ disk₂, openLog c env walFile [] disk' = (.ok wal₂, disk₂) ∧
      ∀ verify, ∃ result, wal₂.verifyChain c verify disk₂ = .ok result ∧ result.ok = true

/-- What `Open` needs of a v1 file.  `hashes` is the defect: the entry hashes have to be v2 hashes
already. -/
structure Upgradable (c : Crypto) (hwm : Option Bytes) (entries : List V1Entry) : Prop where
  hashes : ∀ e ∈ entries, boundOk c (e.record c) = true ∨ legacyOk c (e.record c) = true
  recognised : ∀ e ∈ entries, e.Recognised
  /-- The body of v2 is longer. -/
  fits : ∀ e ∈ entries, (e.record c).Loggable []
  mark : checkHwm (entries.map (V1Entry.record c)) hwm = .ok ()

section Upgrade

variable {env : OpenEnv} {walFile : Bytes} {hwm : Option Bytes} {entries : List V1Entry}
  {read : ReadResult}

/-- What is read from a v1 file. -/
lemma readAllLocked_v1 (hwf : ∀ e ∈ entries, e.WellFormed) (hrec : ∀ e ∈ entries, e.Recognised)
    (hord : entries.Pairwise (·.lsn < ·.lsn)) :
    readAllLocked c [] (walFormat.frames (entries.map V1Entry.encode)) =
      .ok ⟨entries.map (V1Entry.record c), false, !entries.isEmpty⟩ := by
  have hfit : ∀ p ∈ entries.map V1Entry.encode, walFormat.Fits p := by
    intro p hp
    obtain ⟨e, he, rfl⟩ := mem_map.mp hp
    exact (hwf e he).fits
  have hwalk := Format.replay_frames hfit (run_v1 hwf hrec hord (c := c)) []
  rw [append_nil, Format.replay_nil] at hwalk
  rw [readAllLocked, hwalk]

/-- What a clean read of a v1 file says about the file. -/
lemma records_of_read_v1 (hwf : ∀ e ∈ entries, e.WellFormed)
    (hread : readAllLocked c [] (walFormat.frames (entries.map V1Entry.encode)) = .ok read)
    (hclean : read.corrupt = false) :
    read.records.length = entries.length ∧ (∀ r ∈ read.records, r.Compact) ∧
      (read.records.map v1Fields = entries.map V1Entry.fields →
        (∀ e ∈ entries, e.Recognised) ∧ read.records = entries.map (V1Entry.record c)) := by
  have hfit : ∀ p ∈ entries.map V1Entry.encode, walFormat.Fits p := by
    intro p hp
    obtain ⟨e, he, rfl⟩ := mem_map.mp hp
    exact (hwf e he).fits
  rw [readAllLocked] at hread
  rcases hwalk : walFormat.replay (readRecord c []) {}
    (walFormat.frames (entries.map V1Entry.encode)) with ⟨t, stop⟩
  rw [hwalk] at hread
  cases stop with
  | thrown => cases hread
  | corrupt =>
    obtain rfl := Except.ok.inj hread
    cases hclean
  | clean =>
    obtain rfl := Except.ok.inj hread
    obtain ⟨rs, hrs, hspec⟩ := records_of_run_v1 hwf (Format.run_of_clean hfit hwalk)
    obtain rfl : t.records = rs := hrs
    exact hspec

/-- The rewritten file is the ledger a prune that drops nothing would leave. -/
lemma Upgradable.ledger (h : Upgradable c hwm entries) (hwf : ∀ e ∈ entries, e.WellFormed)
    (hord : entries.Pairwise (·.lsn < ·.lsn)) :
    Ledger c [] (walFormat.frames
        ((migrateV1 c genesisHash (entries.map (V1Entry.record c))).map encodeBody))
      (migrateV1 c genesisHash (entries.map (V1Entry.record c))) ∧
    lsnAfter (migrateV1 c genesisHash (entries.map (V1Entry.record c))) =
      lsnAfter (entries.map (V1Entry.record c)) := by
  rw [migrateV1_eq_rechain (forall_mem_map.mpr fun _ _ => ⟨rfl, rfl⟩)]
  refine ⟨ledger_rechain ?_ (pairwise_map.mpr hord) ?_ (sealAll_plain (fun _ => .error []) 0 _),
    lsnAfter_rechain _⟩
  · exact forall_mem_map.mpr fun e he => ⟨(hwf e he).compact_record.wellFormed, h.fits e he⟩
  · exact forall_mem_map.mpr fun e he => ⟨(hwf e he).lsn_nonneg, (hwf e he).lsn_ne⟩

lemma compact_records (hwf : ∀ e ∈ entries, e.WellFormed) :
    ∀ r ∈ entries.map (V1Entry.record c), r.Compact :=
  forall_mem_map.mpr fun e he => (hwf e he).compact_record

lemma length_genesisHash : genesisHash.length = kWalHashLen := length_replicate

/-- The file of an upgradable ledger is upgraded. -/
lemma Upgradable.upgrades (h : Upgradable c hwm entries) (henv : env.Works) (hne : entries ≠ [])
    (hwf : ∀ e ∈ entries, e.WellFormed) (hord : entries.Pairwise (·.lsn < ·.lsn))
    (hlink : HashChain.Linked V1Entry.prevHash V1Entry.entryHash genesisHash entries) :
    Upgrades c env walFile ⟨walFormat.frames (entries.map V1Entry.encode), hwm⟩ entries := by
  have hkey : subkeyFor c [] = .ok [] := rfl
  have hread := readAllLocked_v1 (c := c) hwf h.recognised hord
  have hmig : (!entries.isEmpty) = true := by simpa using hne
  have hverified : Verified c genesisHash (entries.map (V1Entry.record c)) :=
    ⟨HashChain.linked_map.mpr hlink, forall_mem_map.mpr h.hashes⟩
  have hmode : detectMode walFile false (walFormat.frames (entries.map V1Entry.encode)) = .ok () := by
    cases entries with
    | nil => exact absurd rfl hne
    | cons e entries =>
      rw [← append_nil (walFormat.frames _)]
      exact detectMode_frames (hwf e (by simp)).fits (h.recognised e (by simp)).2
  have hopen : openLog c env walFile [] ⟨walFormat.frames (entries.map V1Entry.encode), hwm⟩ =
      (ofRecords walFile [] (entries.map (V1Entry.record c))).migrate c env.rewrite _
        ⟨entries.map (V1Entry.record c), false, !entries.isEmpty⟩ :=
    openLog_of_checks henv.created henv.opened hmode hkey hread
      (bootChecks_ok_iff.mpr ⟨rfl, hverified, h.mark⟩)
  rw [migrate_plain henv.rewrite rfl _ (by exact hmig), henv.hwm] at hopen
  obtain ⟨hledger, hnext⟩ := h.ledger hwf hord
  have hagain : openLog c env walFile [] ⟨_ ++ [], _⟩ = (.ok (ofRecords walFile [] _), _) :=
    hledger.openLog hkey (tornTail_nil _ _) (checkHwm_tip hledger) henv.created henv.opened
  rw [append_nil, hnext] at hagain
  refine ⟨_, _, _, hopen, Ledger.readAll_eq rfl hledger, ?_, _, _, hagain, fun verify => ?_⟩
  · rw [(migrateV1_spec (compact_records hwf) length_genesisHash).2, map_map]
    rfl
  · have hend : ReadsAsEnd [] := Or.inl rfl
    have hread' := hledger.readAllLocked hend
    rw [append_nil] at hread'
    have hunsigned : ∀ u ∈ migrateV1 c genesisHash (entries.map (V1Entry.record c)),
        u.originSignature = [] :=
      originSignature_migrateV1 (forall_mem_map.mpr fun _ _ => rfl) genesisHash
    exact ⟨_, bind_eq_ok.mpr ⟨_, hread', rfl⟩, verifyRead_ok_iff.mpr
      ⟨rfl, hledger.verified, fun u hu => Or.inl (hunsigned u hu)⟩⟩

/-- The records an opened ledger returns. -/
lemma readAll_ok {wal : WriteAheadLog} {disk : WalDisk} {rs : List WalRecord}
    (hopen : wal.isOpen = true) (h : wal.readAll c disk = .ok rs) :
    ∃ read, readAllLocked c wal.subkey disk.file = .ok read ∧ read.records = rs := by
  obtain ⟨read, hread, hrs⟩ := bind_eq_ok.mp h
  rw [WriteAheadLog.contents, hopen] at hread
  exact ⟨read, hread, Except.ok.inj hrs⟩

/-- A file that is upgraded was upgradable. -/
lemma Upgrades.upgradable (henv : env.Works) (hne : entries ≠ [])
    (hwf : ∀ e ∈ entries, e.WellFormed) (hord : entries.Pairwise (·.lsn < ·.lsn))
    (h : Upgrades c env walFile ⟨walFormat.frames (entries.map V1Entry.encode), hwm⟩ entries) :
    Upgradable c hwm entries := by
  obtain ⟨wal, disk', rs, hopen, hreadAll, hsame, -⟩ := h
  obtain ⟨subkey, read, hkey, hread, hchecks, hmigrate⟩ := openLog_boot hopen
  obtain rfl : [] = subkey := Except.ok.inj hkey
  obtain ⟨hclean, hverified, hmark⟩ := bootChecks_ok_iff.mp hchecks
  obtain ⟨hlen, hcompact, hrecords⟩ := records_of_read_v1 hwf hread hclean
  cases hmig : read.migratedFromV1 with
  | false =>
    -- no body was taken for a v1 body, though all of them were recognised
    simp only [migrate, hmig, Bool.not_false, if_true, Prod.mk.injEq, Except.ok.injEq] at hmigrate
    obtain ⟨rfl, rfl⟩ := hmigrate
    obtain ⟨read', hread', rfl⟩ := readAll_ok rfl hreadAll
    obtain rfl : read = read' := Except.ok.inj (hread.symm.trans hread')
    obtain ⟨hrec, -⟩ := hrecords hsame
    have hflag := congrArg ReadResult.migratedFromV1
      (Except.ok.inj (hread.symm.trans (readAllLocked_v1 hwf hrec hord)))
    rw [hmig] at hflag
    simp [hne] at hflag
  | true =>
    rw [migrate_plain henv.rewrite rfl _ hmig, Prod.mk.injEq, Except.ok.injEq] at hmigrate
    obtain ⟨rfl, rfl⟩ := hmigrate
    obtain ⟨read', hread', rfl⟩ := readAll_ok rfl hreadAll
    rw [file_writeHwmBestEffort] at hread'
    obtain ⟨hcompact', hfields⟩ := migrateV1_spec (c := c) hcompact length_genesisHash
    have hcount : (migrateV1 c genesisHash read.records).length ≤ read'.records.length := by
      have hlen₁ := congrArg List.length hfields
      have hlen₂ := congrArg List.length hsame
      simp only [length_map] at hlen₁ hlen₂
      omega
    obtain ⟨hfits, hwritten⟩ := records_of_written hcompact' hread' hcount
    rw [hwritten, hfields] at hsame
    obtain ⟨hrec, heq⟩ := hrecords hsame
    rw [heq] at hverified hmark hfits
    refine ⟨forall_mem_map.mp hverified.2, hrec, fun e he => ⟨(hwf e he).compact_record.chunksOk,
      ?_⟩, hmark⟩
    obtain ⟨prev, hprev, hmem⟩ := exists_migrated (mem_map_of_mem he) length_genesisHash
    have hfit := (hfits _ hmem).2
    rw [length_encodeBody_migrated (hwf e he).compact_record.wellFormed rfl hprev] at hfit
    exact hfit

/-- **A v1 file is upgraded exactly if its hashes are v2 hashes** and the edges are avoided: no LSN
that looks like a magic, no body that grows over the limit, no mark that contradicts the file. -/
theorem v1_upgrade_iff (henv : env.Works) (hne : entries ≠ [])
    (hwf : ∀ e ∈ entries, e.WellFormed) (hord : entries.Pairwise (·.lsn < ·.lsn))
    (hlink : HashChain.Linked V1Entry.prevHash V1Entry.entryHash genesisHash entries) :
    Upgrades c env walFile ⟨walFormat.frames (entries.map V1Entry.encode), hwm⟩ entries ↔
      Upgradable c hwm entries :=
  ⟨Upgrades.upgradable henv hne hwf hord, fun h => h.upgrades henv hne hwf hord hlink⟩

/-- **`Open` refuses the hashes of v1**, whatever they cover: unless it is what v2 or v3 hash, the
hash of an entry is not accepted. -/
lemma v1_hash_refused {e : V1Entry} {content : Bytes} (hwf : ∀ e ∈ entries, e.WellFormed)
    (hord : entries.Pairwise (·.lsn < ·.lsn)) (hrec : ∀ e ∈ entries, e.Recognised)
    (he : e ∈ entries) (hv1 : e.entryHash = c.sha256 content)
    (hother : ∀ m ∈ hashedInputs (e.record c), c.sha256 content ≠ c.sha256 m)
    (wal : WriteAheadLog) (disk' : WalDisk) :
    openLog c env walFile [] ⟨walFormat.frames (entries.map V1Entry.encode), hwm⟩ ≠
      (.ok wal, disk') := by
  intro hopen
  obtain ⟨subkey, read, hkey, hread, hchecks, -⟩ := openLog_boot hopen
  obtain rfl : [] = subkey := Except.ok.inj hkey
  obtain rfl := Except.ok.inj (hread.symm.trans (readAllLocked_v1 hwf hrec hord))
  obtain ⟨-, ⟨-, hhashes⟩, -⟩ := bootChecks_ok_iff.mp hchecks
  obtain ⟨m, hm, hhash⟩ := exists_hashed (hhashes _ (mem_map_of_mem he))
  exact hother m hm (hv1.symm.trans hhash.symm)

end Upgrade

/-! ## A v1 file -/

/-- A v1 entry, its hash left open. -/
def sampleV1Entry (entryHash : Bytes) : V1Entry :=
  { lsn := 0, type := .kPut, collection := text "c", key := text "k", documentBytes := [1]
    prevHash := genesisHash, entryHash }

/-- The fields of a v1 entry and the link, as v1 can hash them. -/
def sampleV1Content : Bytes :=
  let e := sampleV1Entry []
  u64 e.lsn.toUInt64 ++ u8 e.type.value ++ bytes e.collection ++
    bytes e.key ++ bytes e.documentBytes ++ e.prevHash

/-- What v2 hashes of the same entry. -/
def sampleV2Content : Bytes :=
  buildContentLegacy ((sampleV1Entry []).record sampleCrypto) ++ genesisHash

lemma sampleV1Entry_wellFormed (content : Bytes) :
    (sampleV1Entry (sampleCrypto.sha256 content)).WellFormed := by
  have hlen : (sampleCrypto.sha256 content).length = kWalHashLen := sampleCrypto.length_sha256 _
  have hfit : (sampleV1Entry (sampleCrypto.sha256 content)).encode.length = 88 := by
    rw [V1Entry.length_encode, sampleV1Entry, hlen]
    rfl
  have hlsn : (0 : Int64) ≤ 0 ∧ (0 : Int64) ≠ Int64.maxValue := by decide
  refine ⟨rfl, hlen, ?_, hlsn.1, hlsn.2⟩
  rw [Format.Fits, hfit]
  decide

/-- A well-formed v1 file whose hash covers what v1 has: `Open` refuses it. -/
theorem open_refuses_v1_ledger :
    (sampleV1Entry (sampleCrypto.sha256 sampleV1Content)).WellFormed ∧
    HashChain.Linked V1Entry.prevHash V1Entry.entryHash genesisHash
      [sampleV1Entry (sampleCrypto.sha256 sampleV1Content)] ∧
    ∀ wal disk', openLog sampleCrypto {} [] [] ⟨walFormat.frames
      ([sampleV1Entry (sampleCrypto.sha256 sampleV1Content)].map V1Entry.encode), none⟩ ≠
        (.ok wal, disk') := by
  refine ⟨sampleV1Entry_wellFormed _, ⟨rfl, trivial⟩, v1_hash_refused
    (forall_mem_singleton.mpr (sampleV1Entry_wellFormed _)) (pairwise_singleton _ _)
    (by decide +kernel) mem_cons_self rfl (by decide +kernel)⟩

theorem v1_upgrade_iff_sample : Upgrades sampleCrypto {} [] ⟨walFormat.frames
    ([sampleV1Entry (sampleCrypto.sha256 sampleV2Content)].map V1Entry.encode), none⟩
      [sampleV1Entry (sampleCrypto.sha256 sampleV2Content)] := by
  refine (v1_upgrade_iff ⟨rfl, rfl, ⟨rfl, rfl, rfl, rfl⟩, rfl⟩ (cons_ne_nil _ _)
    (forall_mem_singleton.mpr (sampleV1Entry_wellFormed _)) (pairwise_singleton _ _)
    ⟨rfl, trivial⟩).mpr ⟨?_, ?_, ?_, rfl⟩
  all_goals decide +kernel

end DeSentry
