import DeSentry.Properties.WalFailures

/-!
# The chain of the ledger

Every ledger the operations produce verifies, and a ledger that verifies is determined by the
hash of its last entry, as far as SHA-256 has no collision on what was hashed.

For the first half the invariant of `WalLedger.lean` has to survive `Prune`, which drops settled
transit pairs, links the survivors anew from the genesis hash and clears their signatures
(`Consistent.prune`).  For the second half the two layouts must not be confused: a v3 entry
hashes its content with the previous hash inside, a v2 entry its content followed by the previous
hash.  Behind the magic both are the same self-delimiting fields and the previous hash, so equal
inputs have equal entries whichever layout they are of (`content_of_hashed_eq`).  The chain
argument itself is `HashChain.map_eq_of_tip_eq`.

The condition on the first half is that the records are ones the reader accepts.  `Append` does
not check it, and `zero_chunk_intent_breaks_ledger` is an acknowledged record that makes the
ledger unverifiable.
-/

namespace DeSentry

open ByteCodec FrameLog WriteAheadLog List

variable {c : Crypto} {dek : Bytes} {r : WalRecord} {records : List WalRecord}

/-! ## Pruning -/

lemma rechain_concat (g : Bytes) (rs : List WalRecord) : rechain c g (rs ++ [r]) =
      rechain c g rs ++ [relink c (HashChain.tip (·.entryHash) g (rechain c g rs)) r] := by
  induction rs generalizing g with
  | nil => rfl
  | cons r' rs ih =>
    rw [cons_append, rechain, ih]
    rfl

variable {rs : List WalRecord}

lemma mem_rechain {g : Bytes} (h : r ∈ rechain c g rs) :
    ∃ r' ∈ rs, ∃ prev, r = relink c prev r' := by
  induction rs generalizing g with
  | nil => exact absurd h not_mem_nil
  | cons r' rs ih =>
    rcases mem_cons.mp h with h | h
    · exact ⟨r', mem_cons_self, g, h⟩
    · obtain ⟨q, hq, hprev⟩ := ih h
      exact ⟨q, mem_cons_of_mem r' hq, hprev⟩

section Relink

variable {prev subkey : Bytes}

/-- A relinked record verifies under the layout it has. -/
lemma verified_relink (prev : Bytes) (r : WalRecord) :
    boundOk c (relink c prev r) = true ∨ legacyOk c (relink c prev r) = true := by
  cases hb : r.positionBound with
  | true =>
    left
    rw [relink]
    simp only [hb, if_true]
    exact beq_self_eq_true _
  | false =>
    right
    rw [relink]
    simp only [hb]
    exact beq_self_eq_true _

lemma length_entryHash_relink (prev : Bytes) (r : WalRecord) :
    (relink c prev r).entryHash.length = kWalHashLen := by
  simp only [relink]
  split_ifs <;> exact c.length_sha256 _

lemma wellFormed_relink (h : r.WellFormed) (hprev : prev.length = kWalHashLen) :
    (relink c prev r).WellFormed := by
  refine ⟨?_, hprev, length_entryHash_relink prev r, h.whole⟩
  obtain ⟨hcoll, hkey, hdoc, hhash, hnode, horigin, -, hholder⟩ :=
    WalRecord.forall_blobs.mp h.blobs_lt
  exact WalRecord.forall_blobs.mpr
    ⟨hcoll, hkey, hdoc, hhash, hnode, horigin, Nat.two_pow_pos _, hholder⟩

/-- Without its signature a record is no longer than before. -/
lemma length_encodeBody_relink_le (h : r.WellFormed) (hprev : prev.length = kWalHashLen) :
    (encodeBody (relink c prev r)).length ≤ (encodeBody r).length := by
  have hfields : contentFields (relink c prev r) = contentFields r := rfl
  have htail : bodyTail (relink c prev r) = bodyTail r := rfl
  have hsig : (relink c prev r).originSignature = [] := rfl
  have hbound : (relink c prev r).positionBound = r.positionBound := rfl
  have hlink : (relink c prev r).prevHash = prev := rfl
  rw [encodeBody_eq, encodeBody_eq]
  simp only [length_append, ByteWriter.length_u32, ByteWriter.length_bytes, hfields, htail,
    hsig, hbound, hlink, hprev, h.length_prevHash, h.length_entryHash, length_entryHash_relink,
    length_nil]
  split_ifs
  · rw [h.length_prevHash]
    omega
  · omega

lemma loggable_relink (h : r.WellFormed) (hlog : r.Loggable subkey)
    (hprev : prev.length = kWalHashLen) : (relink c prev r).Loggable subkey := by
  have hle := length_encodeBody_relink_le (c := c) h hprev
  have hmax := hlog.2
  exact ⟨hlog.1, by omega⟩

end Relink

variable {nonce : ℕ → Except Bytes Nonce} {subkey : Bytes} {ps : List Bytes}

/-- The payloads of a rewritten log, split at the last record. -/
lemma sealAll_concat {n : ℕ} (h : sealAll c nonce subkey n (rs ++ [r]) = .ok ps) :
    ∃ ps' p, ps = ps' ++ [p] ∧
      sealAll c nonce subkey n rs = .ok ps' ∧
      sealPayload c (nonce (n + rs.length)) subkey (encodeBody r) = .ok p := by
  induction rs generalizing n ps with
  | nil =>
    simp only [nil_append, sealAll] at h
    cases hp : sealPayload c (nonce n) subkey (encodeBody r) with
    | error st =>
      rw [hp] at h
      cases h
    | ok p =>
      rw [hp] at h
      obtain rfl := Except.ok.inj h
      exact ⟨[], p, rfl, rfl, rfl⟩
  | cons r' rs ih =>
    simp only [cons_append, sealAll] at h ⊢
    cases hp : sealPayload c (nonce n) subkey (encodeBody r') with
    | error st =>
      rw [hp] at h
      cases h
    | ok p =>
      cases hps : sealAll c nonce subkey (n + 1) (rs ++ [r]) with
      | error st =>
        rw [hp, hps] at h
        cases h
      | ok ps₁ =>
        rw [hp, hps] at h
        obtain rfl := Except.ok.inj h
        obtain ⟨ps', q, rfl, hrs, hq⟩ := ih hps
        refine ⟨p :: ps', q, rfl, ?_, ?_⟩
        · rw [hrs]
        · rw [length_cons, ← hq]
          congr 2
          omega

lemma lsn_succ_le {m n : Int64} (h : m < n) : m + 1 ≤ n := by
  have hone : (1 : Int64).toInt = 1 := rfl
  have hle := m.le_toInt
  have hlt := n.toInt_lt
  rw [Int64.lt_iff_toInt_lt] at h
  rw [Int64.le_iff_toInt_le, Int64.toInt_add, Int.bmod_eq_of_le (by omega) (by omega)]
  omega

lemma lsnAfter_rechain (rs : List WalRecord) :
    lsnAfter (rechain c genesisHash rs) = lsnAfter rs := by
  cases rs using List.reverseRecOn with
  | nil => rfl
  | append_singleton rs r => rw [rechain_concat, lsnAfter_concat, lsnAfter_concat, relink]

/-- **The rewritten log is a ledger.** -/
lemma ledger_rechain {kept : List WalRecord} (hwf : ∀ r ∈ kept, r.WellFormed ∧ r.Loggable subkey)
    (hord : kept.Pairwise (·.lsn < ·.lsn)) (hlsn : ∀ r ∈ kept, 0 ≤ r.lsn ∧ r.lsn ≠ Int64.maxValue)
    (hseal : sealAll c nonce subkey 0 (rechain c genesisHash kept) = .ok ps) :
    Ledger c subkey (walFormat.frames ps) (rechain c genesisHash kept) := by
  induction kept using List.reverseRecOn generalizing ps with
  | nil =>
    obtain rfl := Except.ok.inj hseal
    exact ledger_nil c subkey
  | append_singleton rs r ih =>
    rw [rechain_concat, ← lastHash_eq_tip] at hseal ⊢
    obtain ⟨ps', p, rfl, hseal', hp⟩ := sealAll_concat hseal
    rw [forall_mem_append] at hwf hlsn
    obtain ⟨hord', -, hlast⟩ := pairwise_append.mp hord
    have hledger := ih hwf.1 hord' hlsn.1 hseal'
    obtain ⟨hr, hlog⟩ := hwf.2 r (by simp)
    obtain ⟨hnonneg, hmax⟩ := hlsn.2 r (by simp)
    have hnext : lsnAfter (rechain c genesisHash rs) ≤ r.lsn := by
      rw [lsnAfter_rechain]
      cases rs using List.reverseRecOn with
      | nil => exact hnonneg
      | append_singleton rs q =>
        rw [lsnAfter_concat]
        exact lsn_succ_le (hlast q (by simp) r (by simp))
    have hframes : walFormat.frames (ps' ++ [p]) = walFormat.frames ps' ++ walFormat.frame p := by
      simp [Format.frames]
    have hlen := hledger.length_lastHash
    rw [hframes]
    exact hledger.concat hp (wellFormed_relink hr hlen) (loggable_relink hr hlog hlen) hnext hmax rfl
      (verified_relink _ r)

lemma Ledger.rechain_filter {bytes : Bytes} (h : Ledger c subkey bytes records)
    (keep : WalRecord → Bool)
    (hseal : sealAll c nonce subkey 0 (rechain c genesisHash (records.filter keep)) = .ok ps) :
    Ledger c subkey (walFormat.frames ps) (rechain c genesisHash (records.filter keep)) := by
  refine ledger_rechain (fun r hr => h.wellFormed r (mem_filter.mp hr).1)
    (h.ordered.filter keep) (fun r hr => ?_) hseal
  obtain ⟨hnonneg, hlt⟩ := h.lsn_bounds r (mem_filter.mp hr).1
  refine ⟨hnonneg, fun hmax => ?_⟩
  rw [hmax] at hlt
  exact absurd (Int64.le_maxValue (lsnAfter records)) (Int64.not_le.mpr hlt)

/-! ## Histories -/

lemma file_writeHwmBestEffort (outcome : HwmOutcome) (tipId : Int64) (tipHash : Bytes)
    (disk : WalDisk) : (writeHwmBestEffort outcome tipId tipHash disk).file = disk.file := by
  cases outcome <;> rfl

/-- What `RewriteLocked` leaves: everything as it was, no file, or the file it was asked for. -/
lemma rewriteLocked_cases (env : RewriteEnv) (wal : WriteAheadLog) (disk : WalDisk)
    (records : List WalRecord) :
    (∃ st, wal.rewriteLocked c env disk records = (.error st, wal, disk)) ∨
    (∃ st, wal.rewriteLocked c env disk records =
      (.error st, { wal with isOpen := false }, { disk with file := [] })) ∨
    ∃ ps, sealAll c env.nonce wal.subkey 0 records = .ok ps ∧
      ((∃ st, wal.rewriteLocked c env disk records =
          (.error st, { wal with isOpen := false }, { disk with file := walFormat.frames ps })) ∨
        wal.rewriteLocked c env disk records =
          (.ok (), { wal with isOpen := true }, { disk with file := walFormat.frames ps })) := by
  unfold rewriteLocked
  by_cases hopened : (!env.tmpOpened) = true
  · exact Or.inl ⟨_, if_pos hopened⟩
  rw [if_neg hopened]
  cases sealAll c env.nonce wal.subkey 0 records with
  | error st => exact Or.inl ⟨st, rfl⟩
  | ok ps =>
    split_ifs with hwritten hrenamed hreopened
    · exact Or.inl ⟨_, rfl⟩
    · exact Or.inr (Or.inl ⟨_, rfl⟩)
    · exact Or.inr (Or.inr ⟨ps, rfl, Or.inl ⟨_, rfl⟩⟩)
    · exact Or.inr (Or.inr ⟨ps, rfl, Or.inr rfl⟩)

/-- The file is a ledger, and the object agrees with it as long as its stream is open. -/
structure Sound (c : Crypto) (dek : Bytes) (s : LogState) (records : List WalRecord) : Prop where
  subkey : subkeyFor c dek = .ok s.1.subkey
  ledger : Ledger c s.1.subkey s.2.file records
  object : s.1.isOpen = true → s.1.tipHash = lastHash records ∧ s.1.nextLsn = lsnAfter records

namespace Sound

variable {s : LogState}

lemma consistent (h : Sound c dek s records) (hopen : s.1.isOpen = true) :
    Consistent c dek s.1 s.2.file records :=
  ⟨hopen, h.subkey, h.ledger, (h.object hopen).1, (h.object hopen).2⟩

/-- What the object sees is a ledger, too. -/
lemma contents (h : Sound c dek s records) :
    ∃ rs, Ledger c s.1.subkey (s.1.contents s.2) rs ∧
      (s.1.isOpen = true ∧ rs = records ∨ s.1.isOpen = false ∧ rs = []) := by
  rw [WriteAheadLog.contents]
  cases hopen : s.1.isOpen with
  | true => exact ⟨records, h.ledger, Or.inl ⟨rfl, rfl⟩⟩
  | false => exact ⟨[], ledger_nil c _, Or.inr ⟨rfl, rfl⟩⟩

lemma readAllLocked_contents {rs : List WalRecord}
    (h : Ledger c s.1.subkey (s.1.contents s.2) rs) :
    readAllLocked c s.1.subkey (s.1.contents s.2) = .ok ⟨rs, false, false⟩ := by
  have hend : ReadsAsEnd [] := Or.inl rfl
  have hread := h.readAllLocked hend
  rwa [append_nil] at hread

variable (h : Sound c dek s records)
include h

lemma setOrigin (nodeId : Bytes) (signer : Option (Bytes → Bytes)) :
    Sound c dek (s.1.setOrigin nodeId signer, s.2) records :=
  ⟨h.subkey, h.ledger, h.object⟩

variable {i : LedgerCall}

/-- An append that is acknowledged was made on an open stream. -/
lemma appended (hi : Stored c s i) (hlog : (i.record c s).Loggable s.1.subkey) :
    Sound c dek (appendStep c s i).1 (records ++ [i.record c s]) := by
  have hdone := (appendStep_acked hi.1).1
  have hopen : s.1.isOpen = true := hdone.wasOpen
  have hnext := ((h.consistent hopen).setOrigin i.origin i.signer).acked hdone hi.2 hlog
  exact ⟨hnext.subkey, hnext.ledger, fun _ => ⟨hnext.tipHash, hnext.nextLsn⟩⟩

/-- An append that fails without leaving bytes changes nothing but the origin. -/
lemma refused (hi : (appendStep c s i).2 = none)
    (hwrites : ¬ Writes c s i) : Sound c dek (appendStep c s i).1 records := by
  rw [Writes, not_not] at hwrites
  obtain ⟨answer, wal', disk', hanswer, hstep⟩ := exists_appendStep_eq c s i
  rw [hstep] at hi hwrites ⊢
  cases answer with
  | ok lsn => cases hi
  | error st =>
    obtain ⟨rfl, -⟩ := append_failed hanswer
    obtain ⟨hkey, hledger, hobject⟩ := h.setOrigin i.origin i.signer
    exact ⟨hkey, hwrites ▸ hledger, hobject⟩

/-- **`Prune`, however it ends.**  When the rename fails the ledger is empty and the stream is
closed; when the stream cannot be opened again the ledger is the rewritten one.  Either way its
records are old ones, possibly relinked. -/
lemma prune (env : RewriteEnv) (checkpointLsn : Int64) :
    ∃ rs, Sound c dek (s.1.prune c env s.2 checkpointLsn).2 rs ∧
      ∀ r ∈ rs, ∃ r' ∈ records, r = r' ∨ ∃ prev, r = relink c prev r' := by
  obtain ⟨rs, hledger, hrs⟩ := h.contents
  have hsub : ∀ r ∈ rs, r ∈ records := by
    rcases hrs with ⟨-, rfl⟩ | ⟨-, rfl⟩
    · exact fun r hr => hr
    · exact fun r hr => absurd hr not_mem_nil
  have hkept : ∀ (keep : WalRecord → Bool), ∀ r ∈ rechain c genesisHash (rs.filter keep),
      ∃ r' ∈ records, r = r' ∨ ∃ prev, r = relink c prev r' := by
    intro keep r hr
    obtain ⟨r', hr', hprev⟩ := mem_rechain hr
    exact ⟨r', hsub r' (mem_filter.mp hr').1, Or.inr hprev⟩
  have hread : s.1.readAll c s.2 = .ok rs :=
    bind_eq_ok.mpr ⟨_, readAllLocked_contents hledger, rfl⟩
  have hclosed : ∀ {P : Prop}, false = true → P := fun hopen => by cases hopen
  unfold WriteAheadLog.prune
  simp only [hread]
  split_ifs with hdropped
  · exact ⟨records, h, fun r hr => ⟨r, hr, Or.inl rfl⟩⟩
  rcases rewriteLocked_cases env s.1 s.2 (rechain c genesisHash (rs.filter fun r =>
      !droppable checkpointLsn (claimedBelow checkpointLsn rs) r)) with
    ⟨st, hrw⟩ | ⟨st, hrw⟩ | ⟨ps, hseal, ⟨st, hrw⟩ | hrw⟩ <;> rw [hrw]
  · exact ⟨records, h, fun r hr => ⟨r, hr, Or.inl rfl⟩⟩
  · exact ⟨[], ⟨h.subkey, ledger_nil c _, hclosed⟩, fun r hr => absurd hr not_mem_nil⟩
  · exact ⟨_, ⟨h.subkey, hledger.rechain_filter _ hseal, hclosed⟩, hkept _⟩
  · refine ⟨_, ⟨h.subkey, ?_, fun _ => ⟨rfl, rfl⟩⟩, hkept _⟩
    rw [file_writeHwmBestEffort]
    exact hledger.rechain_filter _ hseal

variable {env : OpenEnv} {walFile : Bytes} {wal : WriteAheadLog} {disk : WalDisk}

/-- `Open` of a ledger builds an object from its records and changes no file. -/
lemma reopened_eq (hopen : openLog c env walFile dek s.2 = (.ok wal, disk)) :
    wal = ofRecords walFile s.1.subkey records ∧ disk = s.2 := by
  obtain ⟨subkey, read, hkey, hread, -, -, hdone⟩ := openLog_ok hopen
  obtain rfl : s.1.subkey = subkey := Except.ok.inj (h.subkey.symm.trans hkey)
  have hend : ReadsAsEnd [] := Or.inl rfl
  have hback := h.ledger.readAllLocked hend
  rw [append_nil, hread] at hback
  obtain rfl := Except.ok.inj hback
  exact hdone rfl

lemma reopened (hopen : openLog c env walFile dek s.2 = (.ok wal, disk)) :
    Sound c dek (wal, disk) records := by
  obtain ⟨rfl, rfl⟩ := h.reopened_eq hopen
  exact ⟨h.subkey, h.ledger, fun _ => ⟨rfl, rfl⟩⟩

end Sound

/-- **The logs the operations produce.**  Appends are acknowledged with their whole frame in the
file and write a record the reader accepts, or they fail and leave no bytes; prunings end in any
way; the ledger may be opened again at any time. -/
inductive LedgerHistory (c : Crypto) (dek : Bytes) : LogState → Prop
  | opened {env : OpenEnv} {walFile : Bytes} {wal : WriteAheadLog} {disk : WalDisk}
      (h : openLog c env walFile dek {} = (.ok wal, disk)) : LedgerHistory c dek (wal, disk)
  | appended {s : LogState} {i : LedgerCall} (hs : LedgerHistory c dek s) (hi : Stored c s i)
      (hlog : (i.record c s).Loggable s.1.subkey) : LedgerHistory c dek (appendStep c s i).1
  | refused {s : LogState} {i : LedgerCall} (hs : LedgerHistory c dek s)
      (hi : (appendStep c s i).2 = none) (hwrites : ¬ Writes c s i) :
      LedgerHistory c dek (appendStep c s i).1
  | pruned {s : LogState} (env : RewriteEnv) (checkpointLsn : Int64) (hs : LedgerHistory c dek s) :
      LedgerHistory c dek (s.1.prune c env s.2 checkpointLsn).2
  | reopened {s : LogState} {env : OpenEnv} {walFile : Bytes} {wal : WriteAheadLog}
      {disk : WalDisk} (hs : LedgerHistory c dek s)
      (h : openLog c env walFile dek s.2 = (.ok wal, disk)) : LedgerHistory c dek (wal, disk)

/-- **Every history ends in a ledger.** -/
lemma LedgerHistory.sound {s : LogState} (h : LedgerHistory c dek s) :
    ∃ records, Sound c dek s records := by
  induction h with
  | opened h =>
    obtain ⟨subkey, hkey, rfl, rfl⟩ := openLog_new h
    exact ⟨[], hkey, ledger_nil c subkey, fun _ => ⟨rfl, rfl⟩⟩
  | appended hs hi hlog ih =>
    obtain ⟨records, h⟩ := ih
    exact ⟨_, h.appended hi hlog⟩
  | refused hs hi hwrites ih =>
    obtain ⟨records, h⟩ := ih
    exact ⟨_, h.refused hi hwrites⟩
  | pruned env checkpointLsn hs ih =>
    obtain ⟨records, h⟩ := ih
    obtain ⟨rs, hrs, -⟩ := h.prune env checkpointLsn
    exact ⟨rs, hrs⟩
  | reopened hs hopen ih =>
    obtain ⟨records, h⟩ := ih
    exact ⟨_, h.reopened hopen⟩

/-! ## Tamper evidence -/

/-- The byte strings `VerifyChain` hashes for a record: the v3 layout and the v2 layout. -/
def hashedInputs (r : WalRecord) : List Bytes :=
  [buildContent r, buildContentLegacy r ++ r.prevHash]

/-- SHA-256 has no collision among what is hashed for the records, nor with the genesis hash. -/
structure NoCollisions (c : Crypto) (records : List WalRecord) : Prop where
  injective : ∀ r ∈ records, ∀ r' ∈ records, ∀ m ∈ hashedInputs r, ∀ m' ∈ hashedInputs r',
    c.sha256 m = c.sha256 m' → m = m'
  genesis : ∀ r ∈ records, ∀ m ∈ hashedInputs r, c.sha256 m ≠ genesisHash

/-- Two records agree on everything that is hashed. -/
def SameEntry (r r' : WalRecord) : Prop :=
  r.lsn = r'.lsn ∧ r.type = r'.type ∧ r.collection = r'.collection ∧ r.key = r'.key ∧
    r.documentBytes = r'.documentBytes ∧ r.keyHash = r'.keyHash ∧ r.hlc = r'.hlc ∧
    r.originNodeId = r'.originNodeId ∧ r.prevHash = r'.prevHash

instance (r r' : WalRecord) : Decidable (SameEntry r r') := inferInstanceAs (Decidable (_ ∧ _))

lemma sameEntry_of_content {r r' : WalRecord} (h : contentRecord r = contentRecord r')
    (hprev : r.prevHash = r'.prevHash) : SameEntry r r' := by
  simp only [contentRecord, WalRecord.mk.injEq] at h
  obtain ⟨hlsn, htype, hcoll, hkey, hdoc, hhash, hhlc, horigin, -⟩ := h
  exact ⟨hlsn, htype, hcoll, hkey, hdoc, hhash, hhlc, horigin, hprev⟩

lemma exists_hashed (h : boundOk c r = true ∨ legacyOk c r = true) :
    ∃ m ∈ hashedInputs r, c.sha256 m = r.entryHash := by
  rcases h with h | h
  · exact ⟨_, by simp [hashedInputs], beq_iff_eq.mp h⟩
  · exact ⟨_, by simp [hashedInputs], beq_iff_eq.mp h⟩

variable {m : Bytes}

/-- Both layouts are a magic, the self-delimiting fields and the previous hash. -/
lemma hashedInputs_form (hm : m ∈ hashedInputs r) :
    ∃ magic, m = ByteWriter.u32 magic ++ (contentFields r ++ r.prevHash) := by
  simp only [hashedInputs, mem_cons, not_mem_nil, or_false] at hm
  rcases hm with rfl | rfl
  · exact ⟨_, buildContent_eq r⟩
  · exact ⟨_, append_assoc _ _ _⟩

/-- What is hashed determines the entry, whichever layouts are compared. -/
lemma content_of_hashed_eq {r r' : WalRecord} (hr : r.WellFormed) (hr' : r'.WellFormed)
    (hm : m ∈ hashedInputs r) (hm' : m ∈ hashedInputs r') :
    contentRecord r = contentRecord r' ∧ r.prevHash = r'.prevHash := by
  obtain ⟨magic, heq⟩ := hashedInputs_form hm
  obtain ⟨magic', heq'⟩ := hashedInputs_form hm'
  have hsplit := append_inj_right (heq.symm.trans heq')
    (by rw [ByteWriter.length_u32, ByteWriter.length_u32])
  exact (reads_contentFields hr.blobs_lt).cancel (reads_contentFields hr'.blobs_lt) hsplit

/-- **Two verified chains with one tip hold the same entries.** -/
lemma sameEntries_of_lastHash_eq {records' : List WalRecord}
    (hwf : ∀ r ∈ records, r.WellFormed) (hwf' : ∀ r ∈ records', r.WellFormed)
    (hv : Verified c genesisHash records) (hv' : Verified c genesisHash records')
    (htip : lastHash records = lastHash records') (hsha : NoCollisions c (records ++ records')) :
    List.Forall₂ SameEntry records records' := by
  have hgenesis : ∀ r ∈ records ++ records', (boundOk c r = true ∨ legacyOk c r = true) →
      r.entryHash ≠ genesisHash := by
    intro r hr hok
    obtain ⟨m, hm, hhash⟩ := exists_hashed hok
    rw [← hhash]
    exact hsha.genesis r hr m hm
  rw [lastHash_eq_tip, lastHash_eq_tip] at htip
  have hmap : records.map (fun r => (contentRecord r, r.prevHash)) =
      records'.map (fun r => (contentRecord r, r.prevHash)) := by
    refine HashChain.map_eq_of_tip_eq hv.1 hv'.1 htip (fun r hr r' hr' heq => ?_)
      (fun r hr => hgenesis r (by simp [hr]) (hv.2 r hr))
      (fun r hr => hgenesis r (by simp [hr]) (hv'.2 r hr))
    obtain ⟨m, hm, hhash⟩ := exists_hashed (hv.2 r hr)
    obtain ⟨m', hm', hhash'⟩ := exists_hashed (hv'.2 r' hr')
    obtain rfl : m = m' := hsha.injective r (by simp [hr]) r' (by simp [hr']) m hm m' hm'
      (hhash.trans (heq.trans hhash'.symm))
    obtain ⟨hcontent, hprev⟩ := content_of_hashed_eq (hwf r hr) (hwf' r' hr') hm hm'
    exact ⟨Prod.ext hcontent hprev, hprev⟩
  rw [← List.forall₂_eq_eq_eq, List.forall₂_map_left_iff, List.forall₂_map_right_iff] at hmap
  exact hmap.imp fun r r' h => sameEntry_of_content (Prod.ext_iff.mp h).1 (Prod.ext_iff.mp h).2

lemma records_of_readAllLocked {file : Bytes} {read : ReadResult}
    (h : readAllLocked c subkey file = .ok read) :
    read.records = (walFormat.replay (readRecord c subkey) {} file).1.records := by
  rw [readAllLocked] at h
  rcases hreplay : walFormat.replay (readRecord c subkey) {} file with ⟨t, stop⟩
  rw [hreplay] at h
  cases stop with
  | clean => rw [← Except.ok.inj h]
  | corrupt => rw [← Except.ok.inj h]
  | thrown => cases h

/-- What `ReadAll` and `VerifyChain` together say about any log file. -/
lemma verified_of_verifyChain {verify : Option SignatureVerifier} {wal : WriteAheadLog}
    {disk : WalDisk} {result : VerifyResult} (hread : wal.readAll c disk = .ok records)
    (hverify : wal.verifyChain c verify disk = .ok result) (hok : result.ok = true) :
    (∀ r ∈ records, r.WellFormed) ∧ Verified c genesisHash records := by
  obtain ⟨read, hlocked, heq⟩ := bind_eq_ok.mp hread
  obtain rfl : read.records = records := Except.ok.inj heq
  obtain ⟨read', hlocked', heq'⟩ := bind_eq_ok.mp hverify
  obtain rfl : read = read' := Except.ok.inj (hlocked.symm.trans hlocked')
  obtain rfl : verifyRead c verify read = result := Except.ok.inj heq'
  refine ⟨?_, (verifyRead_ok_iff.mp hok).2.1⟩
  rw [records_of_readAllLocked hlocked]
  exact wellFormed_of_replay wal.subkey (wal.contents disk)

/-- **Tamper evidence.**  Every log the operations produce is read without error and verifies
under every verifier that accepts its signatures, in particular without one.  And every log file
that verifies and ends in the same entry hash has the same entries, as long as SHA-256 has no
collision among what is hashed for the records of the two. -/
theorem ledger_tamper_evident (c : Crypto) (dek : Bytes) (s : LogState)
    (hs : LedgerHistory c dek s) : ∃ records, s.1.readAll c s.2 = .ok records ∧
      (∀ verify, SignaturesOk c verify records →
        ∃ result, s.1.verifyChain c verify s.2 = .ok result ∧ result.ok = true) ∧
      ∀ wal' disk' verify' records' result', readAll c wal' disk' = .ok records' →
        verifyChain c verify' wal' disk' = .ok result' → result'.ok = true →
        lastHash records' = lastHash records → NoCollisions c (records ++ records') →
        List.Forall₂ SameEntry records records' := by
  obtain ⟨_, hsound⟩ := hs.sound
  obtain ⟨records, hledger, -⟩ := hsound.contents
  have hread := Sound.readAllLocked_contents hledger
  refine ⟨records, bind_eq_ok.mpr ⟨_, hread, rfl⟩, fun verify hsig => ?_, ?_⟩
  · exact ⟨_, bind_eq_ok.mpr ⟨_, hread, rfl⟩, verifyRead_ok_iff.mpr ⟨rfl, hledger.verified, hsig⟩⟩
  · intro wal' disk' verify' records' result' hread' hverify hok htip hsha
    obtain ⟨hwf', hv'⟩ := verified_of_verifyChain hread' hverify hok
    exact sameEntries_of_lastHash_eq (fun r hr => (hledger.wellFormed r hr).1) hwf'
      hledger.verified hv' htip.symm hsha

/-! ## An acknowledged record that breaks the ledger -/

/-- An intent for a document of no chunks. -/
def sampleZeroChunks : LedgerCall where
  call := { type := .kTransitIntent, collection := [97], key := [107], documentBytes := []
            options := { transitChunkTotal := 0 } }

lemma sampleLog_history : LedgerHistory sampleCrypto [] sampleLog := by
  have hopen : openLog sampleCrypto {} [] [] {} = (.ok sampleLog.1, sampleLog.2) :=
    (ledger_nil sampleCrypto []).openLog rfl (tornTail_nil [] []) rfl rfl rfl
  exact .opened hopen

/-- A new ledger acknowledges the intent and does not verify any more. -/
theorem zero_chunk_intent_breaks_ledger :
    openLog sampleCrypto {} [] [] {} = (.ok sampleLog.1, sampleLog.2) ∧
      Stored sampleCrypto sampleLog sampleZeroChunks ∧
      let s := (appendStep sampleCrypto sampleLog sampleZeroChunks).1
      ∃ result, s.1.verifyChain sampleCrypto none s.2 = .ok result ∧ result.ok = false := by
  have hstored : Stored sampleCrypto sampleLog sampleZeroChunks := ⟨rfl, rfl⟩
  have hseal := (appendStep_acked hstored.1).1.sealed
  have hwf : (sampleZeroChunks.record sampleCrypto sampleLog).WellFormed :=
    wellFormed_newRecord sampleCrypto (by decide +kernel) (by decide +kernel)
  have hfits : walFormat.Fits (sampleZeroChunks.payload sampleCrypto sampleLog) := by
    decide +kernel
  have hread : readAllLocked sampleCrypto []
      (appendStep sampleCrypto sampleLog sampleZeroChunks).1.2.file = .ok ⟨[], true, false⟩ := by
    have hframe := Format.readFrame_frame hfits []
    rw [append_nil] at hframe
    rw [hstored.file, readAllLocked, show sampleLog.2.file = [] from rfl, nil_append,
      Format.replay_eq, hframe]
    have hreject : readRecord sampleCrypto [] {}
        (sampleZeroChunks.payload sampleCrypto sampleLog) = .reject :=
      readRecord_of_not_chunksOk hseal hwf (by decide +kernel)
    simp only [hreject]
  exact ⟨(ledger_nil sampleCrypto []).openLog rfl (tornTail_nil [] []) rfl rfl rfl, hstored,
    _, bind_eq_ok.mpr ⟨_, hread, rfl⟩, rfl⟩

/-- The put of `samplePut` by a node that signs. -/
def sampleSigned : LedgerCall := { samplePut 107 with signer := some fun _ => [1] }

lemma sample_readAllLocked {i : LedgerCall} (hi : Stored sampleCrypto sampleLog i)
    (hlog : (i.record sampleCrypto sampleLog).Loggable []) :
    readAllLocked sampleCrypto [] (appendStep sampleCrypto sampleLog i).1.2.file =
      .ok ⟨[i.record sampleCrypto sampleLog], false, false⟩ := by
  have hdone := (appendStep_acked hi.1).1
  have hnext := (sampleLog_ready.toConsistent.setOrigin i.origin i.signer).acked hdone hi.2 hlog
  have hkey : (appendStep sampleCrypto sampleLog i).1.1.subkey = [] := hdone.subkey
  have hend : ReadsAsEnd [] := Or.inl rfl
  have hread := hnext.ledger.readAllLocked hend
  rwa [append_nil, hkey] at hread

/-- A log of one put, and a second log whose record also carries a signature: the chain fields
agree, the records do not. -/
theorem ledger_tamper_evident_sample :
    (samplePut 107).record sampleCrypto sampleLog ≠ sampleSigned.record sampleCrypto sampleLog ∧
      List.Forall₂ SameEntry [(samplePut 107).record sampleCrypto sampleLog]
        [sampleSigned.record sampleCrypto sampleLog] := by
  refine ⟨by decide +kernel, ?_⟩
  have hone : LedgerHistory sampleCrypto [] (appendStep sampleCrypto sampleLog (samplePut 107)).1 :=
    .appended sampleLog_history ⟨rfl, rfl⟩ (by decide +kernel)
  have hread : readAll sampleCrypto (appendStep sampleCrypto sampleLog (samplePut 107)).1.1
      (appendStep sampleCrypto sampleLog (samplePut 107)).1.2 =
        .ok [(samplePut 107).record sampleCrypto sampleLog] :=
    bind_eq_ok.mpr ⟨_, sample_readAllLocked ⟨rfl, rfl⟩ (by decide +kernel), rfl⟩
  have hread' : readAllLocked sampleCrypto []
      (appendStep sampleCrypto sampleLog sampleSigned).1.2.file =
        .ok ⟨[sampleSigned.record sampleCrypto sampleLog], false, false⟩ :=
    sample_readAllLocked ⟨rfl, rfl⟩ (by decide +kernel)
  obtain ⟨records, hrecords, -, htamper⟩ := ledger_tamper_evident sampleCrypto [] _ hone
  obtain rfl := Except.ok.inj (hread.symm.trans hrecords)
  have hsha : NoCollisions sampleCrypto [(samplePut 107).record sampleCrypto sampleLog,
      sampleSigned.record sampleCrypto sampleLog] := ⟨by decide +kernel, by decide +kernel⟩
  have htip : lastHash [sampleSigned.record sampleCrypto sampleLog] =
      lastHash [(samplePut 107).record sampleCrypto sampleLog] := rfl
  exact htamper (appendStep sampleCrypto sampleLog sampleSigned).1.1
    (appendStep sampleCrypto sampleLog sampleSigned).1.2 none _ _
    (bind_eq_ok.mpr ⟨_, hread', rfl⟩) (bind_eq_ok.mpr ⟨_, hread', rfl⟩)
    (by decide +kernel) htip hsha

end DeSentry
