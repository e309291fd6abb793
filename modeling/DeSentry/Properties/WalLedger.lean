import DeSentry.Framework.HashChain
import DeSentry.Properties.WalCodec

/-!
# A ledger in good order

`Ledger c subkey bytes records` says that a byte string is the whole frames of a list of records
that the reader accepts one after the other, numbered upwards, chained and hashed as
`VerifyChain` demands.  `Consistent` adds what the object in memory has to agree on, and `Ready`
the mark beside the file.  Three facts carry the results on durability, failed appends and tampering:

* one acknowledged `Append` of a loggable record whose frame reaches the file extends a ledger by
  that record (`Ready.acked`);
* a ledger, with bytes behind it that the reader takes for the end of the file, is read back as
  its records and verifies (`Ledger.readAllLocked`, `Ledger.verifyRead_ok`);
* `Open` accepts it and rebuilds the object (`Ledger.openLog`).
-/

namespace DeSentry

open ByteCodec FrameLog WriteAheadLog List

variable {c : Crypto} {r : WalRecord} {records : List WalRecord}

/-! ## Verification as a statement about chains -/

lemma lastHash_eq_tip : lastHash records = HashChain.tip (·.entryHash) genesisHash records := by
  induction records using List.reverseRecOn with
  | nil => rfl
  | append_singleton rs r ih =>
    rw [HashChain.tip_concat, lastHash, getLast?_concat]
    rfl

@[simp] lemma lastHash_concat : lastHash (records ++ [r]) = r.entryHash := by
  rw [lastHash, getLast?_concat]
  rfl

@[simp] lemma lsnAfter_concat : lsnAfter (records ++ [r]) = r.lsn + 1 := by
  rw [lsnAfter, getLast?_concat]
  rfl

/-- The links and hashes `VerifyChain` checks, from a given hash on. -/
def Verified (c : Crypto) (prev : Bytes) (records : List WalRecord) : Prop :=
  HashChain.Linked (·.prevHash) (·.entryHash) prev records ∧
    ∀ r ∈ records, boundOk c r = true ∨ legacyOk c r = true

variable {prev : Bytes}

lemma verified_cons : Verified c prev (r :: records) ↔
    r.prevHash = prev ∧ (boundOk c r = true ∨ legacyOk c r = true) ∧
      Verified c r.entryHash records := by
  rw [Verified, Verified, HashChain.Linked, forall_mem_cons]
  tauto

lemma verified_concat : Verified c genesisHash (records ++ [r]) ↔
    Verified c genesisHash records ∧ r.prevHash = lastHash records ∧
      (boundOk c r = true ∨ legacyOk c r = true) := by
  rw [Verified, Verified, HashChain.linked_append, ← lastHash_eq_tip,
    HashChain.Linked, forall_mem_append, forall_mem_singleton]
  tauto

/-- The verifier, if there is one, accepts every signature. -/
def SignaturesOk (c : Crypto) (verify : Option SignatureVerifier) (records : List WalRecord) :
    Prop :=
  ∀ r ∈ records, r.originSignature = [] ∨ r.originNodeId = [] ∨ signatureOk c verify r = true

lemma signaturesOk_none (c : Crypto) (records : List WalRecord) : SignaturesOk c none records :=
  fun _ _ => Or.inr (Or.inr rfl)

variable {verify : Option SignatureVerifier}

lemma signaturesOk_cons :
    SignaturesOk c verify (r :: records) ↔
      (r.originSignature = [] ∨ r.originNodeId = [] ∨ signatureOk c verify r = true) ∧
        SignaturesOk c verify records :=
  forall_mem_cons

lemma verifyRecords_ok_iff {result : VerifyResult} :
    (verifyRecords c verify prev result records).ok = true ↔
      result.ok = true ∧ Verified c prev records ∧ SignaturesOk c verify records := by
  induction records generalizing prev result with
  | nil => simp [verifyRecords, Verified, HashChain.Linked, SignaturesOk]
  | cons r rest ih =>
    rw [verified_cons, signaturesOk_cons]
    unfold verifyRecords
    split_ifs with hprev hhash hsig hok
    · simp [hprev]
    · have hbad : ¬ (boundOk c r = true ∨ legacyOk c r = true) := not_or.mpr hhash
      simp [hbad]
    · rw [ih]
      tauto
    · rw [ih]
      tauto
    · tauto

variable {read : ReadResult}

lemma verifyRead_ok_iff :
    (verifyRead c verify read).ok = true ↔ read.corrupt = false ∧
      Verified c genesisHash read.records ∧ SignaturesOk c verify read.records := by
  rw [verifyRead]
  split_ifs with hcorrupt
  · simp [hcorrupt]
  · rw [verifyRecords_ok_iff]
    simp [hcorrupt]

/-! ## The invariant -/

/-- The whole frames of records the reader accepts, numbered upwards and chained. -/
structure Ledger (c : Crypto) (subkey bytes : Bytes) (records : List WalRecord) : Prop where
  readable : ∃ payloads, bytes = walFormat.frames payloads ∧ (∀ p ∈ payloads, walFormat.Fits p) ∧
    Format.run (readRecord c subkey) {} payloads = some ⟨records, lsnAfter records, false⟩
  wellFormed : ∀ r ∈ records, r.WellFormed ∧ r.Loggable subkey
  ordered : records.Pairwise (·.lsn < ·.lsn)
  lsn_bounds : ∀ r ∈ records, 0 ≤ r.lsn ∧ r.lsn < lsnAfter records
  verified : Verified c genesisHash records

/-- Bytes the reader takes for the end of the file. -/
def ReadsAsEnd (residue : Bytes) : Prop :=
  walFormat.readFrame residue = .endOfFile ∨ walFormat.readFrame residue = .torn

/-- The object and the file agree on the records. -/
structure Consistent (c : Crypto) (dek : Bytes) (wal : WriteAheadLog) (bytes : Bytes)
    (records : List WalRecord) : Prop where
  isOpen : wal.isOpen = true
  subkey : subkeyFor c dek = .ok wal.subkey
  ledger : Ledger c wal.subkey bytes records
  tipHash : wal.tipHash = lastHash records
  nextLsn : wal.nextLsn = lsnAfter records

/-- A log in good order: the mark agrees with them, too. -/
structure Ready (c : Crypto) (dek : Bytes) (wal : WriteAheadLog) (bytes : Bytes)
    (hwm : Option Bytes) (records : List WalRecord) : Prop
    extends Consistent c dek wal bytes records where
  mark : checkHwm records hwm = .ok ()

variable {n : Int64}

lemma toInt_succ (h : n ≠ Int64.maxValue) : (n + 1).toInt = n.toInt + 1 := by
  have hmax : n.toInt ≠ 2 ^ 63 - 1 := fun he => h (Int64.toInt_inj.mp he)
  have hlt := n.toInt_lt
  have hle := n.le_toInt
  have hone : (1 : Int64).toInt = 1 := rfl
  rw [Int64.toInt_add]
  exact Int.bmod_eq_of_le (by omega) (by omega)

lemma lsn_lt_succ (h : n ≠ Int64.maxValue) : n < n + 1 := by
  rw [Int64.lt_iff_toInt_lt, toInt_succ h]
  omega

lemma ledger_nil (c : Crypto) (subkey : Bytes) : Ledger c subkey [] [] where
  readable := ⟨[], rfl, by simp, rfl⟩
  wellFormed := by simp
  ordered := .nil
  lsn_bounds := by simp
  verified := ⟨trivial, by simp⟩

namespace Ledger

variable {subkey bytes residue : Bytes} (h : Ledger c subkey bytes records)
include h

lemma lsnAfter_nonneg : 0 ≤ lsnAfter records := by
  cases records using List.reverseRecOn with
  | nil => exact Int64.le_refl _
  | append_singleton rs r =>
    obtain ⟨hnonneg, hlt⟩ := h.lsn_bounds r (by simp)
    exact Int64.le_of_lt (Int64.lt_of_le_of_lt hnonneg hlt)

lemma length_lastHash : (lastHash records).length = kWalHashLen := by
  cases records using List.reverseRecOn with
  | nil => rfl
  | append_singleton rs r =>
    rw [lastHash_concat]
    exact (h.wellFormed r (by simp)).1.length_entryHash

/-- Reading a ledger and what follows it. -/
lemma replay (rest : Bytes) : walFormat.replay (readRecord c subkey) {} (bytes ++ rest) =
      walFormat.replay (readRecord c subkey) ⟨records, lsnAfter records, false⟩ rest := by
  obtain ⟨payloads, rfl, hfit, hrun⟩ := h.readable
  exact Format.replay_frames hfit hrun rest

lemma readAllLocked (hend : ReadsAsEnd residue) :
    readAllLocked c subkey (bytes ++ residue) = .ok ⟨records, false, false⟩ := by
  rw [DeSentry.readAllLocked, h.replay, Format.replay_of_end hend]

lemma verifyRead_ok : (verifyRead c none ⟨records, false, false⟩).ok = true :=
  verifyRead_ok_iff.mpr ⟨rfl, h.verified, signaturesOk_none c records⟩

/-- **One more record.** -/
lemma concat {nonce : Except Bytes Nonce} {payload : Bytes}
    (hseal : sealPayload c nonce subkey (encodeBody r) = .ok payload) (hr : r.WellFormed)
    (hlog : r.Loggable subkey) (hlsn : lsnAfter records ≤ r.lsn) (hmax : r.lsn ≠ Int64.maxValue)
    (hprev : r.prevHash = lastHash records) (hhash : boundOk c r = true ∨ legacyOk c r = true) :
    Ledger c subkey (bytes ++ walFormat.frame payload) (records ++ [r]) := by
  have hnonneg : 0 ≤ r.lsn := Int64.le_trans h.lsnAfter_nonneg hlsn
  have hnext : r.lsn < r.lsn + 1 := lsn_lt_succ hmax
  refine ⟨?_, ?_, ?_, ?_, verified_concat.mpr ⟨h.verified, hprev, hhash⟩⟩
  · obtain ⟨payloads, rfl, hfit, hrun⟩ := h.readable
    refine ⟨payloads ++ [payload], ?_, ?_, ?_⟩
    · simp [Format.frames]
    · intro p hp
      rcases mem_append.mp hp with hp | hp
      · exact hfit p hp
      · obtain rfl := mem_singleton.mp hp
        exact (fits_sealPayload_iff hseal).mpr hlog.2
    · have hback : ¬ (0 ≤ r.lsn ∧ r.lsn < lsnAfter records) :=
        fun hback => Int64.lt_irrefl (Int64.lt_of_lt_of_le hback.2 hlsn)
      rw [Format.run_append hrun, Format.run, readRecord_of_chunksOk hseal hr hlog.1, acceptRecord,
        if_neg hback]
      simp [Format.run, hlsn]
  · intro r' hr'
    rcases mem_append.mp hr' with hr' | hr'
    · exact h.wellFormed r' hr'
    · obtain rfl := mem_singleton.mp hr'
      exact ⟨hr, hlog⟩
  · refine pairwise_append.mpr ⟨h.ordered, pairwise_singleton _ _, fun a ha b hb => ?_⟩
    obtain rfl := mem_singleton.mp hb
    exact Int64.lt_of_lt_of_le (h.lsn_bounds a ha).2 hlsn
  · intro r' hr'
    rw [lsnAfter_concat]
    rcases mem_append.mp hr' with hr' | hr'
    · obtain ⟨hle, hlt⟩ := h.lsn_bounds r' hr'
      exact ⟨hle, Int64.lt_trans (Int64.lt_of_lt_of_le hlt hlsn) hnext⟩
    · obtain rfl := mem_singleton.mp hr'
      exact ⟨hnonneg, hnext⟩

end Ledger

/-! ## What `Append` writes -/

section NewRecord

variable (c) (wal : WriteAheadLog) (call : AppendCall)

@[simp] lemma newRecord_lsn : (wal.newRecord c call).lsn = wal.nextLsn := by
  unfold newRecord draftRecord
  split_ifs <;> rfl

@[simp] lemma newRecord_prevHash : (wal.newRecord c call).prevHash = wal.tipHash := by
  unfold newRecord draftRecord
  split_ifs <;> rfl

/-- The hash is over the content of the finished record. -/
lemma boundOk_newRecord : boundOk c (wal.newRecord c call) = true := by
  exact beq_self_eq_true _

lemma whole_newRecord (h : (wal.newRecord c call).type ≠ .kTransitIntent) :
    (wal.newRecord c call).Whole := by
  unfold newRecord draftRecord at h ⊢
  split_ifs at h ⊢ with ht
  · exact absurd ht h
  · exact ⟨rfl, rfl, rfl, rfl⟩

variable {wal call}

lemma wellFormed_newRecord (htip : wal.tipHash.length = kWalHashLen)
    (hlen : (encodeBody (wal.newRecord c call)).length < 2 ^ 32) :
    (wal.newRecord c call).WellFormed where
  blobs_lt := fun b hb =>
    (length_blob_le (whole_newRecord c wal call) b hb).trans_lt hlen
  length_prevHash := by rw [newRecord_prevHash, htip]
  length_entryHash := c.length_sha256 _
  whole := whole_newRecord c wal call

end NewRecord

section Append

variable {env : AppendEnv} {wal : WriteAheadLog} {disk : WalDisk} {call : AppendCall}

variable {wal' : WriteAheadLog} {disk' : WalDisk}

/-- Writing the mark changes the mark and its own counters. -/
lemma writeHwmIfDueLocked_spec {tipId : Int64} {tipHash : Bytes}
    (h : wal.writeHwmIfDueLocked env tipId tipHash disk = (wal', disk')) :
    (∃ lsn ms, wal' = { wal with hwmSavedLsn := lsn, hwmSavedMs := ms }) ∧
      disk'.file = disk.file ∧
      (disk'.hwm = disk.hwm ∨ disk'.hwm = none ∨ disk'.hwm = some (hwmBytes tipId tipHash)) := by
  unfold writeHwmIfDueLocked at h
  split_ifs at h
  · obtain ⟨rfl, rfl⟩ := Prod.mk.inj h
    exact ⟨⟨_, _, rfl⟩, rfl, Or.inl rfl⟩
  · obtain ⟨rfl, rfl⟩ := Prod.mk.inj h
    refine ⟨⟨_, _, rfl⟩, ?_⟩
    cases env.hwm <;> simp [writeHwmBestEffort]

/-- **What an acknowledged `Append` has done.** -/
structure Acked (c : Crypto) (env : AppendEnv) (wal : WriteAheadLog) (disk : WalDisk)
    (call : AppendCall) (wal' : WriteAheadLog) (disk' : WalDisk) (payload : Bytes) : Prop where
  sealed : sealPayload c env.nonce wal.subkey (encodeBody (wal.newRecord c call)) = .ok payload
  nextLsn_ne : wal.nextLsn ≠ Int64.maxValue
  wasOpen : wal.isOpen = true
  isOpen : wal'.isOpen = wal.isOpen
  subkey : wal'.subkey = wal.subkey
  path : wal'.path = wal.path
  tipHash : wal'.tipHash = (wal.newRecord c call).entryHash
  nextLsn : wal'.nextLsn = wal.nextLsn + 1
  file : disk'.file = disk.file ++ env.part (walFormat.frame payload)
  hwm : disk'.hwm = disk.hwm ∨ disk'.hwm = none ∨
    disk'.hwm = some (hwmBytes wal.nextLsn (wal.newRecord c call).entryHash)

lemma append_acked {lsn : Int64} (h : wal.append c env disk call = (.ok lsn, wal', disk')) :
    ∃ payload, Acked c env wal disk call wal' disk' payload := by
  unfold append at h
  by_cases hmax : wal.nextLsn = Int64.maxValue
  · rw [if_pos hmax] at h
    cases h
  rw [if_neg hmax] at h
  cases hseal : sealPayload c env.nonce wal.subkey (encodeBody (wal.newRecord c call)) with
  | error st =>
    simp only [hseal] at h
    cases h
  | ok payload =>
    simp only [hseal] at h
    split_ifs at h with hopen hgood
    · cases h
    · cases h
    · cases hsync : env.syncErr with
      | some err =>
        simp only [hsync] at h
        cases h
      | none =>
        simp only [hsync, Prod.mk.injEq] at h
        obtain ⟨-, hstate⟩ := h
        obtain ⟨⟨lsn', ms', rfl⟩, hfile, hhwm⟩ := writeHwmIfDueLocked_spec hstate
        rw [newRecord_lsn] at hhwm
        exact ⟨payload, hseal, hmax, by simpa using hopen, rfl, rfl, rfl, rfl, rfl, hfile, hhwm⟩

/-- **What a failed `Append` has done**: nothing, or left a part of its frame in the file. -/
lemma append_failed {st : Status} (h : wal.append c env disk call = (.error st, wal', disk')) :
    wal' = wal ∧ (disk' = disk ∨ ∃ payload,
      sealPayload c env.nonce wal.subkey (encodeBody (wal.newRecord c call)) = .ok payload ∧
      wal.nextLsn ≠ Int64.maxValue ∧
      disk' = { disk with file := disk.file ++ env.part (walFormat.frame payload) }) := by
  unfold append at h
  by_cases hmax : wal.nextLsn = Int64.maxValue
  · rw [if_pos hmax] at h
    cases h
    exact ⟨rfl, Or.inl rfl⟩
  rw [if_neg hmax] at h
  cases hseal : sealPayload c env.nonce wal.subkey (encodeBody (wal.newRecord c call)) with
  | error st =>
    simp only [hseal] at h
    cases h
    exact ⟨rfl, Or.inl rfl⟩
  | ok payload =>
    simp only [hseal] at h
    split_ifs at h with hopen hgood
    · cases h
      exact ⟨rfl, Or.inl rfl⟩
    · cases h
      exact ⟨rfl, Or.inr ⟨payload, rfl, hmax, rfl⟩⟩
    · cases hsync : env.syncErr with
      | some err =>
        simp only [hsync] at h
        cases h
        exact ⟨rfl, Or.inr ⟨payload, rfl, hmax, rfl⟩⟩
      | none =>
        simp only [hsync] at h
        cases h

end Append

/-! ## The mark -/

@[simp] lemma lastLsn_concat : lastLsn (records ++ [r]) = r.lsn := by
  rw [lastLsn, getLast?_concat]
  rfl

/-- A mark that was not ahead of the records is not ahead of more records. -/
lemma checkHwm_concat {hwm : Option Bytes} (h : checkHwm records hwm = .ok ())
    (hlt : lastLsn records < r.lsn) : checkHwm (records ++ [r]) hwm = .ok () := by
  cases hwm with
  | none => rfl
  | some mark =>
    unfold checkHwm at h ⊢
    simp only at h ⊢
    split_ifs at h ⊢ with hlen hahead' hahead
    · rfl
    · rw [lastLsn_concat] at hahead'
      rw [not_or, Int64.not_lt] at hahead
      have hid : hwmId mark < r.lsn := Int64.lt_of_le_of_lt hahead.1 hlt
      rcases hahead' with hback | ⟨heq, -⟩
      · exact absurd (Int64.lt_trans hback hid) Int64.lt_irrefl
      · exact absurd (heq ▸ hid) Int64.lt_irrefl
    · rfl

/-- The mark of the last record. -/
lemma checkHwm_own (records : List WalRecord) (hlen : r.entryHash.length = kWalHashLen) :
    checkHwm (records ++ [r]) (some (hwmBytes r.lsn r.entryHash)) = .ok () := by
  have hid : hwmId (hwmBytes r.lsn r.entryHash) = r.lsn := by
    have hlt : r.lsn.toUInt64.toNat < 256 ^ 8 := r.lsn.toUInt64.toNat_lt
    rw [hwmId, hwmBytes, take_left' (ByteWriter.length_i64 _), ByteWriter.i64, ByteWriter.u64,
      leValue_leBytes, Nat.mod_eq_of_lt hlt, UInt64.ofNat_toNat]
    rfl
  have hhash : hwmHash (hwmBytes r.lsn r.entryHash) = r.entryHash := by
    rw [hwmHash, hwmBytes, drop_left' (ByteWriter.length_i64 _)]
    exact take_of_length_le (by rw [hlen, kWalHashLen])
  unfold checkHwm
  simp only [hid, hhash, lastLsn_concat, lastHash_concat]
  split_ifs with hshort hahead
  · rfl
  · rcases hahead with hlt | ⟨-, hne⟩
    · exact absurd hlt Int64.lt_irrefl
    · exact absurd rfl hne
  · rfl

variable {subkey : Bytes}

lemma Ledger.lastLsn_lt {bytes : Bytes} (h : Ledger c subkey bytes records) :
    lastLsn records < lsnAfter records := by
  cases records using List.reverseRecOn with
  | nil => decide
  | append_singleton rs r =>
    rw [lastLsn_concat]
    exact (h.lsn_bounds r (by simp)).2

/-! ## Acknowledged appends -/

namespace Consistent

variable {dek bytes : Bytes} {wal : WriteAheadLog}

section Object

variable (h : Consistent c dek wal bytes records)
include h

lemma setOrigin (nodeId : Bytes) (signer : Option (Bytes → Bytes)) :
    Consistent c dek (wal.setOrigin nodeId signer) bytes records :=
  ⟨h.isOpen, h.subkey, h.ledger, h.tipHash, h.nextLsn⟩

variable {call : AppendCall} {payload : Bytes}

/-- The frame of the next record extends the ledger. -/
lemma ledger_concat {nonce : Except Bytes Nonce}
    (hseal : sealPayload c nonce wal.subkey (encodeBody (wal.newRecord c call)) = .ok payload)
    (hmax : wal.nextLsn ≠ Int64.maxValue) (hlog : (wal.newRecord c call).Loggable wal.subkey) :
    Ledger c wal.subkey (bytes ++ walFormat.frame payload)
      (records ++ [wal.newRecord c call]) := by
  have hwf : (wal.newRecord c call).WellFormed := by
    refine wellFormed_newRecord c (by rw [h.tipHash, h.ledger.length_lastHash]) ?_
    have hlen := hlog.2
    rw [kMaxRecordBytes] at hlen
    omega
  refine h.ledger.concat hseal hwf hlog ?_ ?_ ?_ (Or.inl (boundOk_newRecord c wal call))
  · rw [newRecord_lsn, h.nextLsn]
    exact Int64.le_refl _
  · rwa [newRecord_lsn]
  · rw [newRecord_prevHash, h.tipHash]

lemma lastLsn_lt (call : AppendCall) : lastLsn records < (wal.newRecord c call).lsn := by
  rw [newRecord_lsn, h.nextLsn]
  exact h.ledger.lastLsn_lt

end Object

/-- An acknowledged append of a loggable record whose frame is in the file. -/
lemma acked {env : AppendEnv} {disk disk' : WalDisk} {wal' : WriteAheadLog}
    (h : Consistent c dek wal disk.file records)
    (hdone : Acked c env wal disk call wal' disk' payload) (hreach : env.reached = none)
    (hlog : (wal.newRecord c call).Loggable wal.subkey) :
    Consistent c dek wal' disk'.file (records ++ [wal.newRecord c call]) := by
  have hpart : env.part (walFormat.frame payload) = walFormat.frame payload := by
    rw [AppendEnv.part, hreach]
  refine ⟨by rw [hdone.isOpen, h.isOpen], by rw [hdone.subkey, h.subkey], ?_, ?_, ?_⟩
  · rw [hdone.subkey, hdone.file, hpart]
    exact h.ledger_concat hdone.sealed hdone.nextLsn_ne hlog
  · rw [hdone.tipHash, lastHash_concat]
  · rw [hdone.nextLsn, lsnAfter_concat, newRecord_lsn]

end Consistent

namespace Ready

variable {dek bytes : Bytes} {hwm : Option Bytes} {wal : WriteAheadLog}

lemma setOrigin (h : Ready c dek wal bytes hwm records) (nodeId : Bytes)
    (signer : Option (Bytes → Bytes)) : Ready c dek (wal.setOrigin nodeId signer) bytes hwm records :=
  ⟨h.toConsistent.setOrigin nodeId signer, h.mark⟩

/-- **An acknowledged append of a loggable record keeps the log in good order.** -/
lemma acked {env : AppendEnv} {disk disk' : WalDisk} {call : AppendCall} {payload : Bytes}
    {wal' : WriteAheadLog} (h : Ready c dek wal disk.file disk.hwm records)
    (hdone : Acked c env wal disk call wal' disk' payload) (hreach : env.reached = none)
    (hlog : (wal.newRecord c call).Loggable wal.subkey) :
    Ready c dek wal' disk'.file disk'.hwm (records ++ [wal.newRecord c call]) := by
  refine ⟨h.toConsistent.acked hdone hreach hlog, ?_⟩
  have hkeep := checkHwm_concat h.mark (h.lastLsn_lt call)
  rcases hdone.hwm with hsame | hnone | hown
  · rwa [hsame]
  · rw [hnone]
    rfl
  · rw [hown, ← newRecord_lsn c wal call]
    exact checkHwm_own records (c.length_sha256 _)

end Ready

/-! ## Opening -/

variable {dek : Bytes}

lemma subkeyFor_eq_nil_iff (h : subkeyFor c dek = .ok subkey) :
    subkey = [] ↔ dek = [] := by
  unfold subkeyFor AtRest.fileSubkey at h
  split_ifs at h with hdek
  · obtain rfl := Except.ok.inj h
    simp [hdek]
  · obtain rfl := Except.ok.inj h
    have hlen := c.length_hkdfSha256 dek walTag (text "desentry-at-rest-v1") AtRest.kDekLen
    refine ⟨fun hnil => ?_, fun hnil => absurd hnil hdek⟩
    rw [hnil] at hlen
    cases hlen

variable {env : OpenEnv} {walFile : Bytes} {disk : WalDisk} {wal : WriteAheadLog}

/-- A successful `Open` has passed its checks and migrated what it has read. -/
lemma openLog_boot {disk' : WalDisk} (h : openLog c env walFile dek disk = (.ok wal, disk')) :
    ∃ subkey read, subkeyFor c dek = .ok subkey ∧ readAllLocked c subkey disk.file = .ok read ∧
      bootChecks c walFile dek disk read = .ok () ∧
      (ofRecords walFile subkey read.records).migrate c env.rewrite disk read =
        (.ok wal, disk') := by
  unfold openLog at h
  cases hboot : boot c env walFile dek disk with
  | error e =>
    rw [hboot] at h
    cases h
  | ok x =>
    obtain ⟨wal₀, read⟩ := x
    rw [hboot] at h
    unfold boot at hboot
    by_cases hcreated : (!env.created) = true
    · rw [if_pos hcreated] at hboot
      cases hboot
    rw [if_neg hcreated] at hboot
    obtain ⟨-, -, hboot⟩ := bind_eq_ok.mp hboot
    obtain ⟨subkey, hkey, hboot⟩ := bind_eq_ok.mp hboot
    split_ifs at hboot
    obtain ⟨read', hread, hboot⟩ := bind_eq_ok.mp hboot
    obtain ⟨_, hchecks, hboot⟩ := bind_eq_ok.mp hboot
    obtain ⟨rfl, rfl⟩ := Prod.mk.inj (Except.ok.inj hboot)
    rw [mapError_eq_ok] at hkey hchecks
    exact ⟨subkey, read', hkey, hread, hchecks, h⟩

/-- What the checks of `Open` establish. -/
lemma bootChecks_ok_iff :
    bootChecks c walFile dek disk read = .ok () ↔ read.corrupt = false ∧
      Verified c genesisHash read.records ∧ checkHwm read.records disk.hwm = .ok () := by
  unfold bootChecks
  constructor
  · intro h
    split_ifs at h
    obtain ⟨_, hmark, hverify⟩ := bind_eq_ok.mp h
    simp only at hverify
    split_ifs at hverify with hok
    obtain ⟨hclean, hverified, -⟩ := verifyRead_ok_iff.mp (by simpa using hok)
    exact ⟨hclean, hverified, hmark⟩
  · rintro ⟨hclean, hverified, hmark⟩
    have hok : (verifyRead c none read).ok = true :=
      verifyRead_ok_iff.mpr ⟨hclean, hverified, signaturesOk_none c _⟩
    rw [if_neg (fun hempty => Bool.false_ne_true (hclean.symm.trans hempty.2.2))]
    refine bind_eq_ok.mpr ⟨(), hmark, ?_⟩
    simp only [hok, Bool.not_true, Bool.false_eq_true, if_false]

/-- `Open` when its checks pass. -/
lemma openLog_of_checks (hcreated : env.created = true) (hopened : env.opened = true)
    (hmode : detectMode walFile (decide (dek ≠ [])) disk.file = .ok ())
    (hkey : subkeyFor c dek = .ok subkey) (hread : readAllLocked c subkey disk.file = .ok read)
    (hchecks : bootChecks c walFile dek disk read = .ok ()) :
    openLog c env walFile dek disk =
      (ofRecords walFile subkey read.records).migrate c env.rewrite disk read := by
  have hboot : boot c env walFile dek disk =
      .ok (ofRecords walFile subkey read.records, read) := by
    unfold boot
    simp only [hcreated, hopened, Bool.not_true, Bool.false_eq_true, if_false]
    refine bind_eq_ok.mpr ⟨(), mapError_eq_ok.mpr hmode, ?_⟩
    refine bind_eq_ok.mpr ⟨subkey, mapError_eq_ok.mpr hkey, ?_⟩
    refine bind_eq_ok.mpr ⟨_, hread, ?_⟩
    exact bind_eq_ok.mpr ⟨(), mapError_eq_ok.mpr hchecks, rfl⟩
  rw [openLog, hboot]

/-- What a successful `Open` has read and built. -/
lemma openLog_ok {disk' : WalDisk} (h : openLog c env walFile dek disk = (.ok wal, disk')) :
    ∃ subkey read, subkeyFor c dek = .ok subkey ∧ readAllLocked c subkey disk.file = .ok read ∧
      read.corrupt = false ∧ checkHwm read.records disk.hwm = .ok () ∧
      (read.migratedFromV1 = false →
        wal = ofRecords walFile subkey read.records ∧ disk' = disk) := by
  obtain ⟨subkey, read, hkey, hread, hchecks, hmigrate⟩ := openLog_boot h
  obtain ⟨hclean, -, hmark⟩ := bootChecks_ok_iff.mp hchecks
  refine ⟨subkey, read, hkey, hread, hclean, hmark, fun hmig => ?_⟩
  simp only [migrate, hmig, Bool.not_false, if_true, Prod.mk.injEq, Except.ok.injEq] at hmigrate
  exact ⟨hmigrate.1.symm, hmigrate.2.symm⟩

variable {haveKey : Bool}

/-- `DetectMode` on a file that starts with a frame, or a part of one, in the right mode. -/
lemma detectMode_of_first {file p rest : Bytes} (hfour : 4 ≤ p.length)
    (hmode : AtRest.looksSealedRecord p = haveKey) (hpre : file <+: walFormat.frame p ++ rest)
    (hlen : file.length < 4 ∨ (8 ≤ leValue (file.take 4) ∧ leValue (file.take 4) ≤ kMaxRecordBytes))
    :
    detectMode walFile haveKey file = .ok () := by
  unfold detectMode
  by_cases hshort : file.length < 4
  · rw [if_pos hshort]
  have hbounds : ¬ (leValue (file.take 4) < 8 ∨ leValue (file.take 4) > kMaxRecordBytes) := by
    omega
  simp only [if_neg hbounds]
  split_ifs with htorn hsealed hplain
  · rfl
  all_goals
    -- The head is there, so it starts with the first four bytes of the payload.
    have hhead : ((file.drop 4).take (min (leValue (file.take 4)) 64)).take 4 = p.take 4 := by
      obtain ⟨t, ht⟩ := hpre
      have hbody : file.drop 4 ++ t = p ++ (leBytes 4 (crc32 p).toNat ++ rest) := by
        have hdrop : (file ++ t).drop 4 = file.drop 4 ++ t :=
          drop_append_of_le_length (by omega)
        rw [← hdrop, ht, Format.frame, append_assoc,
          Format.body, append_assoc]
        rfl
      have hroom : 4 ≤ (file.drop 4).length := by
        rw [length_take] at htorn
        omega
      calc ((file.drop 4).take (min (leValue (file.take 4)) 64)).take 4
          = (file.drop 4).take 4 := by
            rw [take_take]
            congr 1
            omega
        _ = (file.drop 4 ++ t).take 4 := (take_append_of_le_length hroom).symm
        _ = p.take 4 := by rw [hbody, take_append_of_le_length hfour]
    have hlook : AtRest.looksSealedRecord
        ((file.drop 4).take (min (leValue (file.take 4)) 64)) = haveKey := by
      rw [← hmode, AtRest.looksSealedRecord, AtRest.looksSealedRecord, hhead]
    have height : 8 ≤ ((file.drop 4).take (min (leValue (file.take 4)) 64)).length := by omega
    simp only [hlook, height, decide_true, Bool.true_and] at *
  · simp_all
  · simp_all

variable {residue : Bytes}

/-- `DetectMode` on a file of whole frames. -/
lemma detectMode_frames {p : Bytes} {ps : List Bytes} (hp : walFormat.Fits p)
    (hmode : AtRest.looksSealedRecord p = haveKey) :
    detectMode walFile haveKey (walFormat.frames (p :: ps) ++ residue) = .ok () := by
  have hfour : 4 ≤ p.length := by
    have hmin : 8 ≤ p.length + 4 := hp.1
    omega
  have hfile : walFormat.frames (p :: ps) ++ residue =
      walFormat.frame p ++ (walFormat.frames ps ++ residue) := by
    simp [Format.frames]
  rw [hfile]
  refine detectMode_of_first hfour hmode prefix_rfl (Or.inr ?_)
  have htake : (walFormat.frame p ++ (walFormat.frames ps ++ residue)).take 4 =
      leBytes 4 (walFormat.body p).length := by
    exact take_left' (length_leBytes ..)
  rw [htake, Format.leValue_length_field hp]
  exact hp

/-- Bytes at the end of a file that a reader takes for its end, and that `Open` cannot mistake
for the first record of a log of the other mode. -/
structure TornTail (subkey bytes residue : Bytes) : Prop where
  readsAsEnd : ReadsAsEnd residue
  mode : bytes = [] → residue.length < 4 ∨ ∃ p, 4 ≤ p.length ∧
    AtRest.looksSealedRecord p = decide (subkey ≠ []) ∧ residue <+: walFormat.frame p

lemma tornTail_nil (subkey bytes : Bytes) : TornTail subkey bytes [] :=
  ⟨Or.inl rfl, fun _ => Or.inl (by decide)⟩

/-- A length field the reader goes on with is in bounds. -/
lemma ReadsAsEnd.bounds (h : ReadsAsEnd residue) : residue.length < 4 ∨
    (8 ≤ leValue (residue.take 4) ∧ leValue (residue.take 4) ≤ kMaxRecordBytes) := by
  by_cases hshort : residue.length < 4
  · exact Or.inl hshort
  by_contra hbad
  have hlen : leValue (residue.take 4) < walFormat.minBody ∨
      leValue (residue.take 4) > walFormat.maxBody := by
    change _ < 8 ∨ _ > kMaxRecordBytes
    omega
  have hread : walFormat.readFrame residue = .badLength := by
    unfold Format.readFrame
    rw [if_neg hshort]
    simp only [if_pos hlen]
  rcases h with h | h <;> rw [hread] at h <;> cases h

namespace Ledger

variable {subkey bytes residue dek walFile : Bytes} {hwm : Option Bytes}
  (h : Ledger c subkey bytes records) (hkey : subkeyFor c dek = .ok subkey)
include h hkey

lemma detectMode (htail : TornTail subkey bytes residue) :
    detectMode walFile (decide (dek ≠ [])) (bytes ++ residue) = .ok () := by
  have hmode : decide (subkey ≠ []) = decide (dek ≠ []) := by
    simp [subkeyFor_eq_nil_iff hkey]
  obtain ⟨payloads, rfl, hfit, hrun⟩ := h.readable
  cases payloads with
  | nil =>
    rcases htail.mode rfl with hshort | ⟨p, hfour, hlook, hpre⟩
    · unfold DeSentry.detectMode
      exact if_pos hshort
    · exact detectMode_of_first hfour (hlook.trans hmode) (hpre.trans (prefix_append _ []))
        htail.readsAsEnd.bounds
  | cons p payloads =>
    have hlook : AtRest.looksSealedRecord p = decide (subkey ≠ []) := by
      obtain ⟨s, hj, -⟩ := Format.run_cons.mp hrun
      obtain ⟨r, v1, -, -, -, hlook⟩ := readRecord_accept hj
      exact hlook
    exact detectMode_frames (hfit p (by simp)) (hlook.trans hmode)

/-- **`Open` accepts a ledger**, whatever torn bytes are behind it, and changes no file. -/
lemma openLog (htail : TornTail subkey bytes residue) (hmark : checkHwm records hwm = .ok ())
    {env : OpenEnv} (hcreated : env.created = true) (hopened : env.opened = true) :
    openLog c env walFile dek ⟨bytes ++ residue, hwm⟩ =
      (.ok (ofRecords walFile subkey records), ⟨bytes ++ residue, hwm⟩) := by
  have hread := h.readAllLocked htail.readsAsEnd
  rw [openLog_of_checks hcreated hopened (h.detectMode hkey htail) hkey hread
    (bootChecks_ok_iff.mpr ⟨rfl, h.verified, hmark⟩)]
  rfl

/-- The object `Open` builds agrees with the file. -/
lemma consistent : Consistent c dek (ofRecords walFile subkey records) bytes records :=
  ⟨rfl, hkey, h, rfl, rfl⟩

/-- The object `Open` builds is in good order. -/
lemma ready (hmark : checkHwm records hwm = .ok ()) :
    Ready c dek (ofRecords walFile subkey records) bytes hwm records :=
  ⟨h.consistent hkey, hmark⟩

end Ledger

end DeSentry
