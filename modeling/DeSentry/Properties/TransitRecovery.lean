import DeSentry.Construction.Ledger.TransitLog
import DeSentry.Properties.OutboxRecovery

/-!
# What the transit store finds when it is opened again

Here `Load` applies the drop records too, so the log amounts to the envelopes that are held
(`holdings`).  What is left of the trouble of the outbox is the torn frame, behind which nothing can be
read, the records of more than a mebibyte, and the gap in `CompactLocked` in which there is no log at
all.

`transit_reload` says that nothing else is lost: as long as no call appends behind a torn frame unless
it replaces the log, every record is short enough, and a log that is removed is replaced, the store
opens with exactly the envelopes that are held, after any number of crashes.
-/

namespace DeSentry

open ByteCodec RecordLog SidecarLog ByteWriter AssocMap TransitEnvelope Function
open List hiding get set
open OutboxProcess (Whole Truthful)

/-! ## Records -/

/-- An envelope that is read back. -/
structure TransitEnvelope.Valid (e : TransitEnvelope) : Prop where
  ownerNode : e.ownerNode ≠ []
  keyHash : e.keyHash.length = kWalHashLen
  chunk : e.chunkIndex < e.chunkTotal

namespace TransitEnvelope

variable {e : TransitEnvelope}

lemma reads_optional {s : Bytes} (h : s.length < 2 ^ 32) :
    Reads readOptional (bytes s) s := by
  intro rest
  have hpos : (bytes s ++ rest).length > 0 := by
    rw [length_append, length_bytes]
    omega
  rw [readOptional, run_remaining_bind, if_pos hpos]
  exact reads_bytes h rest

lemma encode_eq : e.encode = u32 kTransitMagic ++ (u32 3 ++
    (u8 1 ++ (bytes e.ownerNode ++ (bytes e.collection ++
    (bytes e.key ++ (bytes e.keyHash ++ (bytes e.encodedDoc ++
    (bytes e.holderNode ++ (i64 e.intentLsn ++ (i64 e.expiresMs ++
    (u64 e.docSizeBytes ++ (u32 e.chunkIndex ++
    (u32 e.chunkTotal ++ (bytes e.messageId ++
    (bytes e.contentHash ++ (bytes e.holderSig ++ [])))))))))))))))) := by
  simp only [encode, append_assoc, append_nil]

lemma length_encode : e.encode.length = e.ownerNode.length + e.collection.length + e.key.length +
    e.keyHash.length + e.encodedDoc.length + e.holderNode.length + e.messageId.length +
    e.contentHash.length + e.holderSig.length + 77 := by
  simp only [encode_eq, length_append, length_bytes, length_u32,
    length_u8, length_u64, length_i64, length_nil]
  omega

lemma encodeDrop_eq (ownerNode keyHash : Bytes) : encodeDrop ownerNode keyHash =
    u32 kTransitMagic ++ (u32 3 ++ (u8 2 ++
      (bytes ownerNode ++ (bytes keyHash ++ [])))) := by
  simp only [encodeDrop, append_assoc, append_nil]

/-- The fields of version 2 and 3 read back. -/
lemma reads_striping (hchunk : e.chunkIndex < e.chunkTotal)
    (hmessage : e.messageId.length < 2 ^ 32) (hcontent : e.contentHash.length < 2 ^ 32)
    (hsig : e.holderSig.length < 2 ^ 32) (e' : TransitEnvelope) :
    Reads (readStriping 3 e') (u64 e.docSizeBytes ++ (u32 e.chunkIndex ++
      (u32 e.chunkTotal ++ (bytes e.messageId ++
        (bytes e.contentHash ++ bytes e.holderSig)))))
      (some { e' with
        docSizeBytes := e.docSizeBytes, chunkIndex := e.chunkIndex, chunkTotal := e.chunkTotal,
        messageId := e.messageId, contentHash := e.contentHash, holderSig := e.holderSig }) := by
  have hpos : ¬ (e.chunkTotal = 0 ∨ e.chunkIndex ≥ e.chunkTotal) := by
    have hlt : e.chunkIndex.toNat < e.chunkTotal.toNat := hchunk
    rintro (hzero | hle)
    · rw [hzero] at hlt
      exact Nat.not_lt_zero _ hlt
    · exact absurd hlt (Nat.not_lt.mpr hle)
  intro rest
  simp only [append_assoc]
  rw [readStriping, (reads_u64 _).run_bind, (reads_u32 _).run_bind, (reads_u32 _).run_bind,
    if_neg hpos, (reads_optional hmessage).run_bind, if_pos rfl,
    (reads_optional hcontent).run_bind]
  dsimp only
  rw [if_pos rfl, (reads_optional hsig).run_bind]
  rfl

/-- The lengths of the byte strings survive the cast to 32 bits. -/
def Sized (e : TransitEnvelope) : Prop :=
  e.ownerNode.length < 2 ^ 32 ∧ e.collection.length < 2 ^ 32 ∧ e.key.length < 2 ^ 32 ∧
    e.keyHash.length < 2 ^ 32 ∧ e.encodedDoc.length < 2 ^ 32 ∧ e.holderNode.length < 2 ^ 32 ∧
    e.messageId.length < 2 ^ 32 ∧ e.contentHash.length < 2 ^ 32 ∧ e.holderSig.length < 2 ^ 32

lemma sized_of_length (h : e.encode.length < 2 ^ 32) : e.Sized := by
  rw [length_encode] at h
  refine ⟨?_, ?_, ?_, ?_, ?_, ?_, ?_, ?_, ?_⟩ <;> omega

/-- **The round trip** of an envelope. -/
lemma run_readBody_encode (he : e.Valid) (hsized : e.Sized) :
    readBody.run e.encode = .ok (.ok (.hold e), []) := by
  obtain ⟨howner, hcoll, hkey, hhash, hdoc, hholder, hmessage, hcontent, hsig⟩ := hsized
  have hvalid : ¬ (e.ownerNode = [] ∨ e.keyHash.length ≠ kWalHashLen) :=
    not_or.mpr ⟨he.ownerNode, not_not.mpr he.keyHash⟩
  have hstriping := fun e' f => (reads_striping he.chunk hmessage hcontent hsig e').run_bind
    (f := f) (β := Except Status Decoded) []
  simp only [append_assoc] at hstriping
  rw [encode_eq, readBody, (reads_u32 _).run_bind, if_neg (not_not.mpr rfl),
    (reads_u32 _).run_bind, if_neg (by decide), (reads_u8 _).run_bind, if_neg (by decide),
    if_neg (not_not.mpr rfl), readHold, (reads_bytes howner).run_bind,
    (reads_bytes hcoll).run_bind, (reads_bytes hkey).run_bind, (reads_bytes hhash).run_bind,
    (reads_bytes hdoc).run_bind, (reads_bytes hholder).run_bind, (reads_i64 _).run_bind,
    (reads_i64 _).run_bind]
  dsimp only
  rw [if_neg (by decide), hstriping]
  dsimp only
  rw [if_neg hvalid]
  rfl

lemma run_readBody_encodeDrop {ownerNode keyHash : Bytes} (howner : ownerNode ≠ [])
    (hhash : keyHash.length = kWalHashLen)
    (hlen : (encodeDrop ownerNode keyHash).length < 2 ^ 32) :
    readBody.run (encodeDrop ownerNode keyHash) = .ok (.ok (.drop ownerNode keyHash), []) := by
  have hfields : ownerNode.length < 2 ^ 32 ∧ keyHash.length < 2 ^ 32 := by
    rw [encodeDrop_eq] at hlen
    simp only [length_append, length_bytes] at hlen
    refine ⟨?_, ?_⟩ <;> omega
  have hvalid : ¬ (ownerNode = [] ∨ keyHash.length ≠ kWalHashLen) :=
    not_or.mpr ⟨howner, not_not.mpr hhash⟩
  rw [encodeDrop_eq, readBody, (reads_u32 _).run_bind, if_neg (not_not.mpr rfl),
    (reads_u32 _).run_bind, if_neg (by decide), (reads_u8 _).run_bind, if_pos rfl, readDrop,
    (reads_bytes hfields.1).run_bind, (reads_bytes hfields.2).run_bind, if_neg hvalid]
  rfl

/-- The drop record of an envelope is shorter than the envelope. -/
lemma length_encodeDrop_le : (encodeDrop e.ownerNode e.keyHash).length ≤ e.encode.length := by
  rw [encodeDrop_eq, length_encode]
  simp only [length_append, length_bytes, length_u32,
    length_u8, length_nil]
  omega

end TransitEnvelope

namespace TransitRecord

/-- The bytes of a record. -/
def body : TransitRecord → Bytes
  | .hold e => e.encode
  | .drop ownerNode keyHash => encodeDrop ownerNode keyHash

/-- A record that is read back. -/
def Valid : TransitRecord → Prop
  | .hold e => e.Valid
  | .drop ownerNode keyHash => ownerNode ≠ [] ∧ keyHash.length = kWalHashLen

variable (r : TransitRecord)

lemma exists_body_eq : ∃ rest, r.body = u32 kTransitMagic ++ rest := by
  cases r with
  | hold e => exact ⟨_, encode_eq⟩
  | drop ownerNode keyHash => exact ⟨_, encodeDrop_eq ownerNode keyHash⟩

lemma plain_body : AtRest.looksSealedRecord r.body = false ∧ 4 ≤ r.body.length :=
  plain_of_magic (length_u32 _) (by decide) r.exists_body_eq

end TransitRecord

/-! ## What the records amount to -/

/-- The held envelopes, by map key. -/
abbrev Holdings := Bytes → Option TransitEnvelope

/-- What a record means. -/
def TransitRecord.apply (m : Holdings) : TransitRecord → Holdings
  | .hold e => update m (transitMapKey e.ownerNode e.keyHash) (some e)
  | .drop ownerNode keyHash => update m (transitMapKey ownerNode keyHash) none

/-- What a list of records amounts to. -/
def holdings (records : List TransitRecord) : Holdings :=
  records.foldl TransitRecord.apply fun _ => none

lemma holdings_append (records more : List TransitRecord) :
    holdings (records ++ more) = more.foldl TransitRecord.apply (holdings records) :=
  foldl_append

/-- A key that is dropped is gone. -/
lemma foldl_dropped_apply (out : List TransitEnvelope) (m : Holdings) (k : Bytes) :
    (out.map fun e => TransitRecord.drop e.ownerNode e.keyHash).foldl TransitRecord.apply m k =
      if ∃ e ∈ out, transitMapKey e.ownerNode e.keyHash = k then none else m k := by
  induction out generalizing m with
  | nil => simp
  | cons e out ih =>
    rw [map_cons, foldl_cons, ih, TransitRecord.apply]
    by_cases hk : k = transitMapKey e.ownerNode e.keyHash
    · simp [hk]
    · simp [hk, Ne.symm hk]

namespace TransitStore

variable (store : TransitStore)

/-- What is seen of a store. -/
def view : Holdings := get store.entries

lemma view_insert (e : TransitEnvelope) :
    (store.insert e).view = TransitRecord.apply store.view (.hold e) := by
  funext k
  change get (set _ _ _) k = _
  rw [get_set, TransitRecord.apply, update_apply]
  rfl

lemma view_erase (ownerNode keyHash : Bytes) :
    (store.erase ownerNode keyHash).view =
      TransitRecord.apply store.view (.drop ownerNode keyHash) := by
  funext k
  rw [TransitRecord.apply, update_apply]
  split_ifs with hk
  · refine get_eq_none_iff.mpr fun e he heq => ?_
    exact decide_eq_true_iff.mp (mem_filter.mp he).2 (heq.trans hk)
  · refine get_keep fun e _ he => ?_
    rw [decide_eq_true_iff, he]
    exact hk

/-- The store without some envelopes. -/
def without (out : List TransitEnvelope) : TransitStore :=
  { store with entries := store.entries.filter fun e => decide (e.2 ∉ out) }

/-- The store after an append of an envelope. -/
def inserted (appended : Except Status Unit) (e : TransitEnvelope) : TransitStore :=
  match appended with
  | .error _ => store
  | .ok () => store.insert e

/-- What `Load` does with a record. -/
def load (store : TransitStore) : TransitRecord → TransitStore
  | .hold e => store.insert e
  | .drop ownerNode keyHash => store.erase ownerNode keyHash

lemma view_foldl_load (records : List TransitRecord) :
    (records.foldl load store).view = records.foldl TransitRecord.apply store.view := by
  induction records generalizing store with
  | nil => rfl
  | cons r records ih =>
    rw [foldl_cons, foldl_cons, ih]
    cases r with
    | hold e => rw [load, view_insert]
    | drop ownerNode keyHash => rw [load, view_erase]

end TransitStore

/-! ## The rows of a store -/

/-- Parameters that `Open` accepts. -/
structure TransitConfig.Valid (cfg : TransitConfig) : Prop where
  holderNodeId : cfg.holderNodeId ≠ []
  key : (TransitLog.sidecar cfg).Valid

/-- A body whose record is read back. -/
def TransitLog.Short (cfg : TransitConfig) (body : Bytes) : Prop :=
  body.length + overhead (TransitLog.sidecar cfg) ≤ kRecordCap

/-- The rows have distinct keys, each its own, and their records are read back. -/
structure TransitStore.Sound (cfg : TransitConfig) (store : TransitStore) : Prop where
  distinct : AssocMap.Distinct store.entries
  own : ∀ e ∈ store.entries, e.1 = transitMapKey e.2.ownerNode e.2.keyHash
  valid : ∀ e ∈ store.entries, e.2.Valid
  short : ∀ e ∈ store.entries, TransitLog.Short cfg e.2.encode

namespace TransitStore

variable {cfg : TransitConfig} {store : TransitStore}

lemma Sound.sublist (h : store.Sound cfg) (p : Bytes × TransitEnvelope → Bool) :
    Sound cfg { store with entries := store.entries.filter p } where
  distinct := h.distinct.filter p
  own e he := h.own e (mem_of_mem_filter he)
  valid e he := h.valid e (mem_of_mem_filter he)
  short e he := h.short e (mem_of_mem_filter he)

lemma Sound.perm (h : store.Sound cfg) {entries : List (Bytes × TransitEnvelope)}
    (hperm : entries.Perm store.entries) : Sound cfg { store with entries } where
  distinct := h.distinct.perm hperm
  own e he := h.own e (hperm.mem_iff.mp he)
  valid e he := h.valid e (hperm.mem_iff.mp he)
  short e he := h.short e (hperm.mem_iff.mp he)

section Entries

variable (h : store.Sound cfg)
include h

lemma Sound.insert {e : TransitEnvelope} (he : e.Valid)
    (hshort : TransitLog.Short cfg e.encode) : (store.insert e).Sound cfg := by
  have hmem : ∀ {P : Bytes × TransitEnvelope → Prop},
      P (transitMapKey e.ownerNode e.keyHash, e) → (∀ e' ∈ store.entries, P e') →
      ∀ e' ∈ (store.insert e).entries, P e' := fun hnew hold e' he' =>
    (mem_cons.mp he').elim (fun heq => heq ▸ hnew) fun hmem =>
      hold e' (mem_of_mem_filter hmem)
  exact ⟨h.distinct.set _ _, hmem rfl h.own, hmem he h.valid, hmem hshort h.short⟩

lemma Sound.foldl_load {records : List TransitRecord}
    (hvalid : ∀ r ∈ records, r.Valid) (hshort : ∀ r ∈ records, TransitLog.Short cfg r.body) :
    (records.foldl load store).Sound cfg := by
  induction records generalizing store with
  | nil => exact h
  | cons r records ih =>
    rw [forall_mem_cons] at hvalid hshort
    refine ih ?_ hvalid.2 hshort.2
    cases r with
    | hold e => exact h.insert hvalid.1 hshort.1
    | drop ownerNode keyHash => exact h.sublist _

/-- The envelopes are distinct, since their keys are. -/
lemma Sound.nodup : (store.entries.map Prod.snd).Nodup := by
  have hkeys : (store.entries.map Prod.snd).map (fun e => transitMapKey e.ownerNode e.keyHash) =
      store.entries.map Prod.fst := by
    rw [map_map]
    exact map_congr_left fun e he => (h.own e he).symm
  refine List.Nodup.of_map (fun e => transitMapKey e.ownerNode e.keyHash) ?_
  rw [hkeys]
  exact h.distinct

/-- **Taking out envelopes** does what their drop records mean. -/
lemma Sound.view_without {out : List TransitEnvelope}
    (hout : ∀ e ∈ out, e ∈ store.entries.map Prod.snd) :
    (store.without out).view =
      (out.map fun e => TransitRecord.drop e.ownerNode e.keyHash).foldl TransitRecord.apply
        store.view := by
  funext k
  rw [foldl_dropped_apply]
  change get (store.entries.filter _) k = _
  rw [h.distinct.get_filter]
  change _ = if _ then none else get store.entries k
  cases hget : get store.entries k with
  | none => rw [ite_self, Option.filter_none]
  | some v =>
    have hmem := mem_of_get hget
    have hiff : (∃ e ∈ out, transitMapKey e.ownerNode e.keyHash = k) ↔ v ∈ out := by
      constructor
      · rintro ⟨e, he, hkey⟩
        obtain ⟨row, hrow, rfl⟩ := mem_map.mp (hout e he)
        have hk : row.1 = k := (h.own row hrow).trans hkey
        have hsome : get store.entries k = some row.2 :=
          h.distinct.get_eq_some_iff.mpr (hk ▸ hrow)
        rw [hget] at hsome
        exact Option.some_inj.mp hsome ▸ he
      · exact fun hv => ⟨v, hv, (h.own _ hmem).symm⟩
    by_cases hv : v ∈ out
    · rw [if_pos (hiff.mpr hv), Option.filter_some, if_neg (by simpa using hv)]
    · rw [if_neg (mt hiff.mp hv), Option.filter_some, if_pos (by simpa using hv)]

/-- The rows, in any order, amount to the store. -/
lemma Sound.holdings_rows {rows : List TransitEnvelope}
    (hperm : rows.Perm (store.entries.map Prod.snd)) : holdings (rows.map .hold) = store.view := by
  have hrows : (rows.map fun e => (transitMapKey e.ownerNode e.keyHash, e)).Perm
      store.entries := by
    refine (hperm.map _).trans (List.Perm.of_eq ?_)
    rw [map_map]
    refine (map_congr_left fun e he => ?_).trans (map_id store.entries)
    exact Prod.ext (h.own e he).symm rfl
  have hfold := (h.distinct.perm hrows).foldl_update
  rw [foldl_map] at hfold
  rw [holdings, foldl_map]
  exact hfold.trans (funext (h.distinct.get_perm hrows))

end Entries

end TransitStore

/-! ## Loading -/

/-- The log holds records and perhaps a torn frame, and they amount to what was recorded. -/
def TransitLog.Kept (c : Crypto) (cfg : TransitConfig) (s : Recorded TransitRecord) : Prop :=
  ∃ (records : List TransitRecord) (tail : Bytes), (∀ r ∈ records, r.Valid) ∧
    Logged c (TransitLog.sidecar cfg) (records.map (·.body)) tail ((s.files .log).getD []) ∧
    holdings records = holdings s.history

namespace TransitLog

variable {c : Crypto} {cfg : TransitConfig}

variable {body payload : Bytes}

lemma short_of_readable (h : Readable c (sidecar cfg) body payload) :
    Short cfg body := by
  have hle : payload.length ≤ kRecordCap := h.fits.2
  rwa [h.isPayload.length] at hle

lemma length_lt_of_short (h : Short cfg body) : body.length < 2 ^ 32 := by
  rw [Short, kRecordCap] at h
  omega

/-- `Load` takes a record. -/
lemma judge_eq {r : TransitRecord} (hread : Readable c (sidecar cfg) r.body payload)
    (hvalid : r.Valid) (store : TransitStore) :
    judge c cfg (subkey c (sidecar cfg)) store payload = .accept (store.load r) := by
  have hlen := length_lt_of_short (short_of_readable hread)
  rw [judge, hread.isPayload.openBody hread.plain]
  dsimp only
  cases r with
  | hold e =>
    rw [TransitRecord.body, run_readBody_encode hvalid (sized_of_length hlen)]
    rfl
  | drop ownerNode keyHash =>
    rw [TransitRecord.body, run_readBody_encodeDrop hvalid.1 hvalid.2 hlen]
    rfl

/-- The records of a log, for `Load`. -/
lemma forall₂_judge {records : List TransitRecord} {payloads : List Bytes}
    (hvalid : ∀ r ∈ records, r.Valid)
    (h : List.Forall₂ (Readable c (sidecar cfg)) (records.map (·.body)) payloads) :
    (∀ r ∈ records, Short cfg r.body) ∧
      List.Forall₂ (Format.Carries (judge c cfg (subkey c (sidecar cfg))) id TransitStore.load)
        payloads records := by
  induction records generalizing payloads with
  | nil =>
    cases h
    exact ⟨by simp, .nil⟩
  | cons r records ih =>
    rw [forall_mem_cons] at hvalid
    cases h with
    | cons hread hrest =>
      obtain ⟨hshort, hcarries⟩ := ih hvalid.2 hrest
      refine ⟨forall_mem_cons.mpr ⟨short_of_readable hread, hshort⟩, .cons ?_ hcarries⟩
      exact fun store => ⟨_, judge_eq hread hvalid.1 store, rfl⟩

variable {s : Recorded TransitRecord} {env : SidecarLog.OpenEnv}

/-- **A kept log opens**, with the envelopes that are held. -/
lemma Kept.openStore (hcfg : cfg.Valid) (h : Kept c cfg s) (hmade : env.made = true)
    (haccessible : env.accessible = true) (compact : CompactEnv) :
    ∃ store : TransitStore, openStore c cfg env compact s.files =
        (.ok { store, subkey := subkey c (sidecar cfg) },
          update s.files .log (some ((s.files .log).getD [])), []) ∧
      store.Sound cfg ∧ store.view = holdings s.history := by
  obtain ⟨records, tail, hvalid, hlogged, hholdings⟩ := h
  have hkey := hlogged.openSubkey hcfg.key hmade
  obtain ⟨htorn, payloads, hread, hcontents⟩ := hlogged
  obtain ⟨hshort, hcarries⟩ := forall₂_judge hvalid hread
  let empty : TransitStore := ⟨cfg.holderNodeId, cfg.ttlSeconds, []⟩
  obtain ⟨store, hload, hstore⟩ := Format.load_carries (forall_fits hread) hcarries
    htorn.readFrame empty
  have hempty : empty.Sound cfg := ⟨distinct_nil, by simp [empty], by simp [empty],
    by simp [empty]⟩
  obtain rfl : store = records.foldl TransitStore.load empty := hstore
  refine ⟨_, ?_, hempty.foldl_load hvalid hshort, ?_⟩
  · rw [TransitLog.openStore, if_neg hcfg.holderNodeId, hkey]
    dsimp only
    rw [haccessible, hcontents, hload]
    rfl
  · rw [TransitStore.view_foldl_load, ← hholdings]
    rfl

lemma openStore_refused (c : Crypto) (cfg : TransitConfig)
    (h : ¬ (env.made = true ∧ env.accessible = true)) (compact : CompactEnv) (files : Files) :
    ∃ failure, openStore c cfg env compact files = (.error failure, files, []) := by
  unfold TransitLog.openStore
  by_cases hid : cfg.holderNodeId = []
  · exact ⟨_, if_pos hid⟩
  rw [if_neg hid]
  cases hkey : openSubkey c (sidecar cfg) env (files .log) with
  | error st => exact ⟨_, rfl⟩
  | ok key =>
    have hclosed : env.accessible = false :=
      Bool.eq_false_iff.mpr fun hopen => h ⟨openSubkey_eq_ok hkey, hopen⟩
    rw [hclosed]
    exact ⟨_, rfl⟩

/-! ## Appending -/

/-- **Appends behind whole records.** -/
lemma Kept.appends (h : Kept c cfg s) (hwhole : Whole s.files) {bytes : Bytes}
    (hlog : s.files .log = some bytes) {steps : List (Step TransitRecord)}
    (hsteps : Appends c (sidecar cfg) TransitRecord.body steps)
    (hvalid : ∀ r ∈ steps.filterMap Step.record, r.Valid) : Kept c cfg (s.exec steps) := by
  obtain ⟨records, tail, hrecords, hlogged, hholdings⟩ := h
  obtain rfl : tail = [] := by
    rw [← hlogged.split_snd, hwhole]
  rw [hlog] at hlogged
  obtain ⟨tail, hlogged⟩ := hlogged.appends hsteps
  refine ⟨records ++ steps.filterMap Step.record, tail, ?_, ?_, ?_⟩
  · exact fun r hr => (mem_append.mp hr).elim (hrecords r) (hvalid r)
  · rwa [show (s.exec steps).files .log = some _ from hsteps.log hlog, Option.getD_some]
  · rw [holdings_append, hholdings, Recorded.exec, holdings_append]

/-! ## Dropping -/

/-- The envelopes whose drop records are written: all up to the first failure. -/
def written (c : Crypto) (cfg : TransitConfig) (env : DropEnv) (inst : TransitInstance)
    (rows : List TransitEnvelope) : List TransitEnvelope :=
  rows.takeWhile fun e => (dropped c cfg env inst e).isOk

/-- The streams tell whether the drop records of some envelopes have been written. -/
def TruthfulDrops (cfg : TransitConfig) (env : DropEnv) (rows : List TransitEnvelope) : Prop :=
  ∀ e ∈ rows, Truthful (env.drops e)
    ((encodeDrop e.ownerNode e.keyHash).length + overhead (sidecar cfg) + 8)

section Drop

variable {env : DropEnv} {inst : TransitInstance} {rows : List TransitEnvelope}

lemma appendDrops_eq_ok_iff {env : TransitStore.ReleaseEnv} :
    TransitStore.appendDrops env rows = .ok () ↔ ∀ e ∈ rows, (env.dropped e).isOk = true := by
  induction rows with
  | nil => simp [TransitStore.appendDrops]
  | cons e rows ih =>
    rw [TransitStore.appendDrops, forall_mem_cons]
    cases env.dropped e with
    | error st => simp [Except.isOk, Except.toBool]
    | ok _ => simpa [Except.isOk, Except.toBool] using ih

lemma written_eq_iff :
    written c cfg env inst rows = rows ↔
      ∀ e ∈ rows, (dropped c cfg env inst e).isOk = true := takeWhile_eq_self_iff

/-- **The drop records**: those of `written` are complete, and perhaps a part of one more. -/
lemma dropSteps_spec (hkey : inst.subkey = subkey c (sidecar cfg))
    (hshort : ∀ e ∈ rows, Short cfg e.encode) (htruth : TruthfulDrops cfg env rows) :
    Appends c (sidecar cfg) TransitRecord.body (dropSteps c cfg env inst rows) ∧
      (dropSteps c cfg env inst rows).filterMap Step.record =
        (written c cfg env inst rows).map (fun e => .drop e.ownerNode e.keyHash) ∧
      (dropSteps c cfg env inst rows ≠ [] → inst.isOpen = true) := by
  induction rows with
  | nil => exact ⟨.nil, rfl, absurd rfl⟩
  | cons e rows ih =>
    obtain ⟨hfirst, hshort⟩ := forall_mem_cons.mp hshort
    obtain ⟨htruthful, htruth⟩ := forall_mem_cons.mp htruth
    obtain ⟨happends, hrecords, hopen⟩ := ih hshort htruth
    have hbody : Short cfg (TransitRecord.drop e.ownerNode e.keyHash).body :=
      (Nat.add_le_add_right length_encodeDrop_le _).trans hfirst
    rw [dropSteps, written, takeWhile_cons, dropped]
    rcases hrec : dropRecord c cfg (env.drops e) inst e with ⟨answer, steps⟩
    have heq := hrec
    rw [dropRecord, hkey] at heq
    obtain ⟨hone, honeOpen, -, htold⟩ := appendRecord_spec TransitRecord.body (.drop _ _)
      (TransitRecord.plain_body _) hbody (env.drops e) inst.isOpen heq
    obtain ⟨hok, herr⟩ := htold htruthful
    cases answer with
    | error st => exact ⟨hone, herr nofun, honeOpen⟩
    | ok _ =>
      obtain ⟨payload, hread, rfl⟩ := hok rfl
      refine ⟨.append hread happends, ?_, fun _ => honeOpen nofun⟩
      rw [filterMap_append, hrecords]
      rfl

variable {store : TransitStore}

/-- What `dropAll` does after the drop records: nothing, or a compaction if they are all written. -/
lemma dropAll_cases {answer : Except Status Unit} {steps : List (Step TransitRecord)}
    {isOpen : Bool} (heq : dropAll c cfg env inst rows store = (answer, steps, isOpen)) :
    ∃ comp, steps = dropSteps c cfg env inst rows ++ comp ∧
      (comp = [] ∧ isOpen = inst.isOpen ∨
        written c cfg env inst rows = rows ∧
          ∃ payloads, sealBodies c (sidecar cfg) env.compact.nonce inst.subkey 0
              ((env.compact.order.1 (store.entries.map Prod.snd)).map (·.encode)) = .ok payloads ∧
            (comp = (commitSteps (format.frames payloads)).take 2 ∧ isOpen = false ∨
              comp = commitSteps (format.frames payloads))) := by
  rw [dropAll] at heq
  cases hdrops : TransitStore.appendDrops ⟨dropped c cfg env inst, .ok ()⟩ rows with
  | error st =>
    rw [hdrops] at heq
    obtain ⟨-, rfl, rfl⟩ := heq
    exact ⟨[], (append_nil _).symm, Or.inl ⟨rfl, rfl⟩⟩
  | ok _ =>
    rw [hdrops] at heq
    split_ifs at heq with hrows
    · obtain ⟨-, rfl, rfl⟩ := heq
      exact ⟨[], (append_nil _).symm, Or.inl ⟨rfl, rfl⟩⟩
    have hcases := compactLocked_cases c (sidecar cfg) TransitRecord env.compact.toCompactEnv
      inst.subkey inst.isOpen ((env.compact.order.1 (store.entries.map Prod.snd)).map (·.encode))
    rw [compactLocked] at heq
    generalize SidecarLog.compactLocked c (sidecar cfg) env.compact.toCompactEnv inst.subkey
      inst.isOpen ((env.compact.order.1 (store.entries.map Prod.snd)).map (·.encode)) = comp
      at heq hcases
    obtain ⟨answer', comp, isOpen'⟩ := comp
    obtain ⟨-, rfl, rfl⟩ := heq
    refine ⟨comp, rfl, ?_⟩
    have hwritten := written_eq_iff.mpr (appendDrops_eq_ok_iff.mp hdrops)
    rcases hcases with hnone | ⟨payloads, hseal, htwo | ⟨isOpen, hfull⟩⟩
    · exact Or.inl (Prod.mk.inj hnone)
    · exact Or.inr ⟨hwritten, payloads, hseal, Or.inl (Prod.mk.inj htwo)⟩
    · exact Or.inr ⟨hwritten, payloads, hseal, Or.inr (Prod.mk.inj hfull).1⟩

/-- The rows of a compaction are records that are read back. -/
lemma logged_rows (h : store.Sound cfg) {order : MapOrder TransitEnvelope}
    {nonce : ℕ → Except Bytes Nonce} {payloads : List Bytes}
    (hseal : sealBodies c (sidecar cfg) nonce (subkey c (sidecar cfg)) 0 ((order.1
      (store.entries.map Prod.snd)).map (·.encode)) = .ok payloads) :
    Logged c (sidecar cfg) (((order.1 (store.entries.map Prod.snd)).map TransitRecord.hold).map
      (·.body)) [] (format.frames payloads) := by
  refine ⟨Or.inl rfl, payloads, ?_, (append_nil _).symm⟩
  have hshort : ∀ e ∈ order.1 (store.entries.map Prod.snd), Short cfg e.encode := by
    intro e he
    obtain ⟨row, hrow, rfl⟩ := mem_map.mp ((order.2 _).mem_iff.mp he)
    exact h.short row hrow
  have hpayloads := forall₂_isPayload hseal
  rw [map_map]
  rw [List.forall₂_map_left_iff] at hpayloads ⊢
  refine (List.forall₂_and_left ..).mpr ⟨hshort, hpayloads⟩ |>.imp fun e payload he => ?_
  exact readable_of_short he.2 (TransitRecord.hold e).plain_body he.1

variable {entries : List (Bytes × TransitEnvelope)}

/-- The loop of `Release` takes out the envelopes whose drop records are written. -/
lemma releaseFrom_snd (env : TransitStore.ReleaseEnv) (keyHashes : List Bytes)
    (hnodup : (entries.map Prod.snd).Nodup) :
    (TransitStore.releaseFrom env keyHashes entries).2 =
      entries.filter fun e => decide (e.2 ∉ ((entries.map Prod.snd).filter fun e =>
        decide (e.keyHash ∈ keyHashes)).takeWhile fun e => (env.dropped e).isOk) := by
  induction entries with
  | nil => rfl
  | cons e rest ih =>
    obtain ⟨hnot, hrest⟩ := nodup_cons.mp hnodup
    have ih := ih hrest
    rw [TransitStore.releaseFrom, map_cons]
    by_cases hwanted : e.2.keyHash ∈ keyHashes
    · have hfilter : (e.2 :: rest.map Prod.snd).filter (fun e => decide (e.keyHash ∈ keyHashes)) =
          e.2 :: (rest.map Prod.snd).filter fun e => decide (e.keyHash ∈ keyHashes) :=
        filter_cons_of_pos (decide_eq_true hwanted)
      rw [if_neg (not_not.mpr hwanted), hfilter, takeWhile_cons]
      cases hdrop : env.dropped e.2 with
      | error st => simp [Except.isOk, Except.toBool]
      | ok _ =>
        have hkeep : ∀ row ∈ rest, row.2 ≠ e.2 := fun row hrow heq =>
          hnot (heq ▸ mem_map_of_mem hrow)
        rw [show (Except.ok () : Except Status Unit).isOk = true from rfl,
          filter_cons_of_neg (by simp)]
        refine ih.trans ?_
        refine filter_congr fun row hrow => ?_
        simp [hkeep row hrow]
    · have hout : e.2 ∉ ((rest.map Prod.snd).filter fun e => decide (e.keyHash ∈ keyHashes)).takeWhile
          fun e => (env.dropped e).isOk := fun hmem =>
        hwanted (of_decide_eq_true (mem_filter.mp (takeWhile_subset _ hmem)).2)
      have hfilter : (e.2 :: rest.map Prod.snd).filter (fun e => decide (e.keyHash ∈ keyHashes)) =
          (rest.map Prod.snd).filter fun e => decide (e.keyHash ∈ keyHashes) :=
        filter_cons_of_neg (by simpa using hwanted)
      rw [if_pos hwanted, hfilter, filter_cons_of_pos (by simpa using hout), ← ih]

lemma releaseFrom_ok (env : TransitStore.ReleaseEnv) (keyHashes : List Bytes) {n : ℕ}
    (h : (TransitStore.releaseFrom env keyHashes entries).1 = .ok n) :
    ∀ e ∈ (entries.map Prod.snd).filter fun e => decide (e.keyHash ∈ keyHashes),
      (env.dropped e).isOk = true := by
  induction entries generalizing n with
  | nil => simp
  | cons e rest ih =>
    rw [TransitStore.releaseFrom] at h
    rw [map_cons]
    by_cases hwanted : e.2.keyHash ∈ keyHashes
    · rw [if_neg (not_not.mpr hwanted)] at h
      rw [filter_cons_of_pos (by simpa using hwanted), forall_mem_cons]
      cases hdrop : env.dropped e.2 with
      | error st =>
        rw [hdrop] at h
        cases h
      | ok _ =>
        rw [hdrop] at h
        dsimp only at h
        cases hrest : (TransitStore.releaseFrom env keyHashes rest).1 with
        | error st =>
          rw [hrest] at h
          cases h
        | ok m => exact ⟨rfl, ih hrest⟩
    · rw [if_pos hwanted] at h
      rw [filter_cons_of_neg (by simpa using hwanted)]
      exact ih h

lemma walked_sound (h : inst.store.Sound cfg) : (walked env inst).Sound cfg :=
  h.perm (env.order.2 _)

lemma view_walked (h : inst.store.Sound cfg) : (walked env inst).view = inst.store.view :=
  funext (h.distinct.get_perm (env.order.2 _))

/-- The map after a `Release`. -/
lemma release_snd (h : inst.store.Sound cfg) (compacted : Except Status Unit)
    (keyHashes : List Bytes) :
    ((walked env inst).release ⟨dropped c cfg env inst, compacted⟩ keyHashes).2 =
      (walked env inst).without (written c cfg env inst (wanted env keyHashes inst)) := by
  rw [TransitStore.release]
  split_ifs with hnil
  · subst hnil
    simp [wanted, written, TransitStore.without]
  · have hwalked : (walked env inst).Sound cfg := walked_sound h
    have hsnd := releaseFrom_snd ⟨dropped c cfg env inst, compacted⟩ keyHashes hwalked.nodup
    rcases hfrom : TransitStore.releaseFrom ⟨dropped c cfg env inst, compacted⟩ keyHashes
      (walked env inst).entries with ⟨released, entries⟩
    rw [hfrom] at hsnd
    obtain rfl : entries = _ := hsnd
    cases released with
    | error st => rfl
    | ok n =>
      dsimp only
      split_ifs <;> rfl

/-- The map after an `ExpireAsOf`. -/
lemma expireAsOf_snd (compacted : Except Status Unit) (nowMs : Int64) :
    ((walked env inst).expireAsOf ⟨dropped c cfg env inst, compacted⟩ nowMs).2 =
      (walked env inst).without (expired env nowMs inst) := by
  have hentries : ((walked env inst).entries.filter fun e => e.2.live nowMs) =
      (walked env inst).entries.filter fun e => decide (e.2 ∉ expired env nowMs inst) := by
    refine filter_congr fun row hrow => ?_
    have hmem : row.2 ∈ expired env nowMs inst ↔ (!row.2.live nowMs) = true := by
      rw [expired, mem_filter]
      exact and_iff_right (mem_map_of_mem hrow)
    rw [Bool.eq_iff_iff, decide_eq_true_iff, hmem, Bool.not_eq_true', Bool.not_eq_false]
  rw [TransitStore.expireAsOf, TransitStore.without, ← hentries]
  cases TransitStore.appendDrops ⟨dropped c cfg env inst, compacted⟩ _ with
  | error st => rfl
  | ok _ =>
    split_ifs <;> rfl

end Drop

end TransitLog

/-! ## The condition -/

namespace TransitProcess

open TransitLog

variable (c : Crypto) (cfg : TransitConfig)

/-- The condition on an append: it finds no torn frame, and its record is read back. -/
def SafeAppend (p : TransitProcess) (env : SidecarLog.AppendEnv) (e : TransitEnvelope)
    (crash : Option (ℕ × ℕ)) : Prop :=
  Whole p.files ∧ Short cfg e.encode ∧ e.chunkIndex < e.chunkTotal ∧
    (crash = none →
      Truthful env (e.encode.length + overhead (sidecar cfg) + 8))

/-- The condition on a call that takes out some envelopes and thereby makes some steps: it finds no
torn frame or replaces the log, and a log that is removed is replaced. -/
def SafeDrops (p : TransitProcess) (env : DropEnv) (rows : List TransitEnvelope)
    (steps : List (Step TransitRecord)) : Prop :=
  TruthfulDrops cfg env rows ∧
    (steps = [] ∨ Whole p.files ∨ .file (.rename .sibling .log) ∈ steps) ∧
    (.file (.remove .log) ∈ steps → .file (.rename .sibling .log) ∈ steps)

/-- **The condition.** -/
def Safe (p : TransitProcess) : TransitLogEvent → Prop
  | .openStore _ _ _ => True
  | .hold env nowMs e crash => ∀ inst, p.running = some inst →
      holds inst.store e = true →
        SafeAppend cfg p env (inst.store.stamped nowMs e) crash
  | .mergeRemoteEnvelope env e crash => ∀ inst, p.running = some inst →
      merges e = true → SafeAppend cfg p env e crash
  | .release env keyHashes crash => ∀ inst, p.running = some inst →
      SafeDrops cfg p env (wanted env keyHashes inst)
        (executed (release c cfg env keyHashes inst).2.2 crash)
  | .expireAsOf env nowMs crash => ∀ inst, p.running = some inst →
      SafeDrops cfg p env (expired env nowMs inst)
        (executed (expireAsOf c cfg env nowMs inst).2.2 crash) ∧
      (crash = none → ∀ e ∈ expired env nowMs inst,
        (dropped c cfg env inst e).isOk = true)

/-! ## The invariant -/

/-- The log amounts to what was recorded, and so does the map of a store that is open. -/
structure Inv (p : TransitProcess) : Prop where
  kept : Kept c cfg p.toRecorded
  running : ∀ inst, p.running = some inst → inst.subkey = subkey c (sidecar cfg) ∧
    inst.store.Sound cfg ∧ inst.store.view = holdings p.history ∧
    (inst.isOpen = true → ∃ bytes, p.files .log = some bytes)

variable {c cfg} {p : TransitProcess}

lemma inv_initial : Inv c cfg {} where
  kept := ⟨[], [], by simp, logged_nil, rfl⟩
  running _ h := nomatch h

lemma exec_append (s : Recorded TransitRecord) (steps more : List (Step TransitRecord)) :
    s.exec (steps ++ more) = (s.exec steps).exec more := by
  simp only [Recorded.exec, foldl_append, filterMap_append, append_assoc]

lemma exec_quiet {quiet : List (Step TransitRecord)} (h : Quiet quiet)
    (s : Recorded TransitRecord) : (s.exec quiet).files .log = s.files .log ∧
      (s.exec quiet).history = s.history :=
  ⟨h.2 s.files, by rw [Recorded.exec, h.1, append_nil]⟩

variable {s : Recorded TransitRecord}

lemma kept_congr {s' : Recorded TransitRecord} (h : Kept c cfg s)
    (hlog : s'.files .log = s.files .log) (hhistory : s'.history = s.history) :
    Kept c cfg s' := by
  rw [Kept, hlog, hhistory]
  exact h

variable {inst : TransitInstance} {steps : List (Step TransitRecord)} {crash : Option (ℕ × ℕ)}

/-- A call with its steps. -/
lemma inv_after (answer : TransitLogAnswer) (hkept : Kept c cfg (p.exec (executed steps crash)))
    (hrunning : crash = none → inst.subkey = subkey c (sidecar cfg) ∧ inst.store.Sound cfg ∧
      inst.store.view = holdings (p.exec steps).history ∧ (inst.isOpen = true → ∃ bytes, (p.exec
      steps).files .log = some bytes)) :
    Inv c cfg (p.after inst steps crash answer).1 := by
  refine ⟨hkept, fun inst' hinst' => ?_⟩
  change (if crash.isNone then some inst else none) = some inst' at hinst'
  cases crash with
  | none =>
    obtain rfl := Option.some_inj.mp hinst'
    exact hrunning rfl
  | some point => cases hinst'

/-- A call that does nothing to the files, and nothing to the map. -/
lemma Inv.after_nil (h : Inv c cfg p) (hinst : p.running = some inst) (crash : Option (ℕ × ℕ))
    (answer : TransitLogAnswer) :
    Inv c cfg (p.after inst [] crash answer).1 := by
  refine inv_after answer ?_ fun _ => ?_
  · rw [executed_nil, exec_nil]
    exact h.kept
  · rw [exec_nil]
    exact h.running inst hinst

/-- Opening. -/
lemma Inv.openStore (hcfg : cfg.Valid) (h : Inv c cfg p) (env : SidecarLog.OpenEnv)
    (compact : TransitLog.CompactEnv) (crash : Option (ℕ × ℕ)) :
    Inv c cfg (step c cfg p (.openStore env compact crash)).1 := by
  by_cases hok : env.made = true ∧ env.accessible = true
  · obtain ⟨store, heq, hsound, hview⟩ := h.kept.openStore hcfg hok.1 hok.2 compact
    have hlog : update p.files .log (some ((p.files .log).getD [])) .log =
      some ((p.files .log).getD []) := update_self ..
    rw [step, heq]
    refine inv_after _ ?_ fun _ => ?_
    · rw [executed_nil, exec_nil]
      obtain ⟨records, tail, hvalid, hlogged, hholdings⟩ := h.kept
      refine ⟨records, tail, hvalid, ?_, hholdings⟩
      dsimp only
      rwa [hlog]
    · rw [exec_nil]
      exact ⟨rfl, hsound, hview, fun _ => ⟨_, hlog⟩⟩
  · obtain ⟨failure, heq⟩ := openStore_refused c cfg hok compact p.files
    rw [step, heq]
    refine ⟨?_, fun inst hinst => ?_⟩
    · dsimp only [after]
      rw [executed_nil, exec_nil]
      exact h.kept
    · change (if crash.isNone then none else none) = some inst at hinst
      rw [ite_self] at hinst
      cases hinst

/-! ### `Hold` and `MergeRemoteEnvelope` -/

variable {e : TransitEnvelope} {appended : Except Status Unit}

/-- **An envelope is appended**, and goes to the map if that succeeds. -/
lemma Inv.append (h : Inv c cfg p) (hinst : p.running = some inst) {env : SidecarLog.AppendEnv}
    (howner : e.ownerNode ≠ []) (hhash : e.keyHash.length = kWalHashLen)
    (hsafe : SafeAppend cfg p env e crash)
    (heq : appendRecord c (sidecar cfg) env inst.subkey inst.isOpen (.hold e) e.encode = (appended,
      steps)) (answer : TransitLogAnswer) :
    Inv c cfg (p.after (some { inst with store := inst.store.inserted appended e }) steps crash
      answer).1 := by
  obtain ⟨hwhole, hshort, hchunk, htruth⟩ := hsafe
  obtain ⟨hkey, hsound, hview, hopen⟩ := h.running inst hinst
  have hvalid : e.Valid := ⟨howner, hhash, hchunk⟩
  rw [hkey] at heq
  obtain ⟨happends, hisOpen, hrecord, htold⟩ := appendRecord_spec TransitRecord.body (.hold e)
    (TransitRecord.plain_body _) hshort env inst.isOpen heq
  refine inv_after answer ?_ fun hcrash => ?_
  · by_cases hnil : steps = []
    · rw [hnil, executed_nil, exec_nil]
      exact h.kept
    obtain ⟨bytes, hlog⟩ := hopen (hisOpen hnil)
    refine h.kept.appends hwhole hlog ?_ fun r hr => ?_
    · rcases crash with _ | ⟨n, k⟩
      · exact happends
      · exact happends.interrupted n k
    · rw [hrecord crash r hr]
      exact hvalid
  · obtain ⟨hok, herr⟩ := htold (htruth hcrash)
    refine ⟨hkey, ?_, ?_, fun hisOpen => ?_⟩
    · cases appended with
      | error st => exact hsound
      | ok _ => exact hsound.insert hvalid hshort
    · cases appended with
      | error st =>
        rw [Recorded.exec, herr (by rintro ⟨⟩), append_nil]
        exact hview
      | ok _ =>
        obtain ⟨payload, -, rfl⟩ := hok rfl
        dsimp only [TransitStore.inserted]
        rw [TransitStore.view_insert, hview]
        exact (holdings_append p.history [.hold e]).symm
    · obtain ⟨bytes, hlog⟩ := hopen hisOpen
      exact ⟨_, happends.log hlog⟩

variable {nowMs : Int64}

lemma Inv.hold (h : Inv c cfg p) {env : SidecarLog.AppendEnv}
    (hsafe : Safe c cfg p (.hold env nowMs e crash)) :
    Inv c cfg (step c cfg p (.hold env nowMs e crash)).1 := by
  rw [step]
  cases hinst : p.running with
  | none => exact h
  | some inst =>
    dsimp only
    rw [TransitLog.hold]
    by_cases hholds : holds inst.store e = true
    · have hsafe := hsafe inst hinst hholds
      rw [holds, Bool.and_eq_true, Bool.and_eq_true, decide_eq_true_iff,
        decide_eq_true_iff, decide_eq_true_iff] at hholds
      obtain ⟨⟨howner, hhash⟩, hother⟩ := hholds
      rw [if_pos (by simp [holds, howner, hhash, hother])]
      rcases heq : appendRecord c (sidecar cfg) env inst.subkey inst.isOpen
        (TransitRecord.hold (inst.store.stamped nowMs e)) (inst.store.stamped nowMs e).encode with
        ⟨appended, steps⟩
      have hstore : (inst.store.hold appended nowMs e).2 =
          inst.store.inserted appended (inst.store.stamped nowMs e) := by
        unfold TransitStore.hold
        rw [if_neg howner, if_neg (not_not.mpr hhash), if_neg hother]
        cases appended <;> rfl
      dsimp only
      rw [hstore]
      exact h.append hinst (e := inst.store.stamped nowMs e) howner hhash hsafe heq _
    · have hstore : (inst.store.hold (.ok ()) nowMs e).2 = inst.store := by
        rw [holds, Bool.and_eq_true, Bool.and_eq_true, decide_eq_true_iff,
          decide_eq_true_iff, decide_eq_true_iff] at hholds
        rw [TransitStore.hold]
        split_ifs with howner hhash hother
        · rfl
        · rfl
        · rfl
        · exact absurd ⟨⟨howner, not_not.mp hhash⟩, hother⟩ hholds
      rw [if_neg hholds]
      dsimp only
      rw [hstore]
      exact h.after_nil hinst crash _

lemma Inv.mergeRemoteEnvelope (h : Inv c cfg p) {env : SidecarLog.AppendEnv}
    (hsafe : Safe c cfg p (.mergeRemoteEnvelope env e crash)) :
    Inv c cfg (step c cfg p (.mergeRemoteEnvelope env e crash)).1 := by
  rw [step]
  cases hinst : p.running with
  | none => exact h
  | some inst =>
    dsimp only
    rw [TransitLog.mergeRemoteEnvelope]
    by_cases hmerges : merges e = true
    · have hsafe := hsafe inst hinst hmerges
      rw [if_pos hmerges]
      rw [merges, Bool.and_eq_true, decide_eq_true_iff, decide_eq_true_iff] at hmerges
      rcases heq : appendRecord c (sidecar cfg) env inst.subkey inst.isOpen
        (TransitRecord.hold e) e.encode with ⟨appended, steps⟩
      have hstore : (inst.store.mergeRemoteEnvelope appended e).2 =
          inst.store.inserted appended e := by
        unfold TransitStore.mergeRemoteEnvelope
        rw [if_neg (not_or.mpr ⟨hmerges.1, not_not.mpr hmerges.2⟩)]
        cases appended <;> rfl
      dsimp only
      rw [hstore]
      exact h.append hinst hmerges.1 hmerges.2 hsafe heq _
    · have hstore : (inst.store.mergeRemoteEnvelope (.ok ()) e).2 = inst.store := by
        rw [merges, Bool.and_eq_true, decide_eq_true_iff, decide_eq_true_iff] at hmerges
        rw [TransitStore.mergeRemoteEnvelope]
        split_ifs with hbad
        · rfl
        · exact absurd ⟨(not_or.mp hbad).1, not_not.mp (not_or.mp hbad).2⟩ hmerges
      rw [if_neg hmerges]
      dsimp only
      rw [hstore]
      exact h.after_nil hinst crash _

/-! ### `Release` and `ExpireAsOf` -/

variable {store : TransitStore}

/-- The rows that a compaction puts in the place of the log. -/
lemma kept_commit (hsound : store.Sound cfg) {env : TransitLog.CompactEnv} {payloads : List Bytes}
    (hseal : sealBodies c (sidecar cfg) env.nonce (subkey c (sidecar cfg)) 0 ((env.order.1
      (store.entries.map Prod.snd)).map (·.encode)) = .ok payloads)
    (hlog : s.files .log = some (format.frames payloads)) (hview : store.view = holdings s.history)
    : Kept c cfg s := by
  refine ⟨(env.order.1 (store.entries.map Prod.snd)).map .hold, [], ?_, ?_, ?_⟩
  · intro r hr
    obtain ⟨e, he, rfl⟩ := mem_map.mp hr
    obtain ⟨row, hrow, rfl⟩ := mem_map.mp ((env.order.2 _).mem_iff.mp he)
    exact hsound.valid row hrow
  · rw [hlog]
    exact logged_rows hsound hseal
  · rw [hsound.holdings_rows (env.order.2 _), hview]

lemma record_commitSteps (contents : Bytes) :
    (commitSteps (R := TransitRecord) contents).filterMap Step.record = [] := rfl

variable {env : DropEnv} {rows : List TransitEnvelope}

/-- **Envelopes are taken out**: their drop records are appended, and the log is compacted. -/
lemma Inv.dropAll (h : Inv c cfg p) (hinst : p.running = some inst)
    (hrows : ∀ e ∈ rows, e ∈ inst.store.entries.map Prod.snd) (hsound : store.Sound cfg)
    (hview : crash = none ∨ written c cfg env inst rows = rows → store.view = ((written c cfg env
      inst rows).map fun e => TransitRecord.drop e.ownerNode e.keyHash).foldl TransitRecord.apply
      inst.store.view) {answer : Except Status Unit} {isOpen : Bool}
    (heq : dropAll c cfg env inst rows store = (answer, steps, isOpen))
    (hsafe : SafeDrops cfg p env rows (executed steps crash)) (answer' : TransitLogAnswer) :
    Inv c cfg (p.after (some { inst with store, isOpen }) steps crash answer').1 := by
  obtain ⟨htruth, hwhole, hrenamed⟩ := hsafe
  obtain ⟨hkey, hinstSound, hinstView, hopen⟩ := h.running inst hinst
  have hrow : ∀ e ∈ rows, e.Valid ∧ Short cfg e.encode := by
    intro e he
    obtain ⟨row, hrow, rfl⟩ := mem_map.mp (hrows e he)
    exact ⟨hinstSound.valid row hrow, hinstSound.short row hrow⟩
  obtain ⟨happends, hrecords, hstepsOpen⟩ :=
    dropSteps_spec hkey (fun e he => (hrow e he).2) htruth
  obtain ⟨comp, rfl, hcomp⟩ := dropAll_cases heq
  generalize dropSteps c cfg env inst rows = drops at *
  rw [hinstView, ← holdings_append] at hview
  by_cases hren : .file (.rename .sibling .log) ∈ executed (drops ++ comp) crash
  · -- The new log is there, so all drop records were written before.
    rcases hcomp with ⟨rfl, -⟩ | ⟨hwritten, payloads, hseal, hform⟩
    · rw [append_nil] at hren
      exact absurd (mem_of_mem_executed_file hren) (happends.not_mem_file _)
    have hall : executed (drops ++ comp) crash = drops ++ commitSteps (format.frames payloads) :=
      executed_renamed happends.not_mem_file (hform.imp_left And.left) hren
    have hlog : (p.exec (drops ++ commitSteps (format.frames payloads))).files .log =
        some (format.frames payloads) := by
      rw [exec_append]
      exact (log_commit TransitRecord (p.exec drops).files _).2.2
    have hnew : store.view =
        holdings (p.exec (drops ++ commitSteps (format.frames payloads))).history := by
      rw [hview (Or.inr hwritten), Recorded.exec, filterMap_append, hrecords,
        record_commitSteps, append_nil]
    refine inv_after answer' ?_ fun hcrash => ?_
    · rw [hall]
      rw [hkey] at hseal
      exact kept_commit hsound hseal hlog hnew
    · subst hcrash
      rw [show drops ++ comp = _ from hall]
      exact ⟨hkey, hsound, hnew, fun _ => ⟨_, hlog⟩⟩
  · -- The log is not removed, so what is left of the call are appends.
    have hremoved : .file (.remove .log) ∉ executed (drops ++ comp) crash := mt hrenamed hren
    have hform : comp = [] ∨ ∃ contents, comp = (commitSteps contents).take 2 ∨
        comp = commitSteps contents := by
      rcases hcomp with ⟨hnil, -⟩ | ⟨-, payloads, -, hform⟩
      · exact Or.inl hnil
      · exact Or.inr ⟨_, hform.imp_left And.left⟩
    obtain ⟨crash', quiet, hexec, hquiet, hnone⟩ := executed_not_removed hform hremoved
    have hkept : Kept c cfg (p.exec (executed (drops ++ comp) crash)) := by
      rw [hexec, exec_append]
      refine kept_congr ?_ (exec_quiet hquiet _).1 (exec_quiet hquiet _).2
      by_cases hnil : executed drops crash' = []
      · rw [hnil, exec_nil]
        exact h.kept
      have hwhole : Whole p.files := by
        rcases hwhole with hempty | hwhole | hmem
        · rw [hexec] at hempty
          exact absurd (append_eq_nil_iff.mp hempty).1 hnil
        · exact hwhole
        · exact absurd hmem hren
      have hdrops : drops ≠ [] := by
        rintro rfl
        exact hnil (executed_nil crash')
      obtain ⟨bytes, hlog⟩ := hopen (hstepsOpen hdrops)
      refine h.kept.appends hwhole hlog ?_ fun r hr => ?_
      · rcases crash' with _ | ⟨n, k⟩
        · exact happends
        · exact happends.interrupted n k
      · have hmem := mem_of_mem_executed_record hr
        rw [hrecords] at hmem
        obtain ⟨e, he, rfl⟩ := mem_map.mp hmem
        have hvalid := (hrow e (takeWhile_subset _ he)).1
        exact ⟨hvalid.ownerNode, hvalid.keyHash⟩
    refine inv_after answer' hkept fun hcrash => ⟨hkey, hsound, ?_, fun hisOpen => ?_⟩
    · rw [hview (Or.inl hcrash)]
      subst hcrash
      obtain rfl := hnone rfl
      change drops ++ comp = drops ++ quiet at hexec
      rw [hexec, Recorded.exec, filterMap_append, hrecords, hquiet.1, append_nil]
    · subst hcrash
      obtain rfl := hnone rfl
      change drops ++ comp = drops ++ quiet at hexec
      obtain rfl : comp = [] := by
        rcases hform with hnil | ⟨contents, rfl | rfl⟩
        · exact hnil
        · exact absurd (mem_append_right drops (.tail _ (.head _))) hremoved
        · exact absurd (mem_append_right drops (.tail _ (.tail _ (.head _)))) hren
      have hsame : isOpen = inst.isOpen := by
        rcases hcomp with ⟨-, hsame⟩ | ⟨-, payloads, -, ⟨hnil, -⟩ | hnil⟩
        · exact hsame
        · cases hnil
        · cases hnil
      obtain ⟨bytes, hlog⟩ := hopen (hsame ▸ hisOpen)
      rw [append_nil]
      exact ⟨_, happends.log hlog⟩

lemma written_subset (h : e ∈ written c cfg env inst rows) : e ∈ rows :=
  takeWhile_subset _ h

lemma mem_rows_of_walked (h : e ∈ (walked env inst).entries.map Prod.snd) :
    e ∈ inst.store.entries.map Prod.snd :=
  ((env.order.2 inst.store.entries).map Prod.snd).mem_iff.mp h

/-- What is seen of the walked map without some envelopes. -/
lemma view_walked_without (h : inst.store.Sound cfg) {out : List TransitEnvelope}
    (hout : ∀ e ∈ out, e ∈ (walked env inst).entries.map Prod.snd) :
    ((walked env inst).without out).view =
      (out.map fun e => TransitRecord.drop e.ownerNode e.keyHash).foldl TransitRecord.apply
        inst.store.view := by
  rw [(walked_sound h).view_without hout, view_walked h]

variable {keyHashes : List Bytes}

lemma Inv.release (h : Inv c cfg p) (hsafe : Safe c cfg p (.release env keyHashes crash)) :
    Inv c cfg (step c cfg p (.release env keyHashes crash)).1 := by
  rw [step]
  cases hinst : p.running with
  | none => exact h
  | some inst =>
    have hsafe := hsafe inst hinst
    obtain ⟨-, hsound, -, -⟩ := h.running inst hinst
    dsimp only
    rw [TransitLog.release] at hsafe ⊢
    simp only [release_snd hsound] at hsafe ⊢
    rcases heq : TransitLog.dropAll c cfg env inst (wanted env keyHashes inst)
      ((walked env inst).without
        (written c cfg env inst (wanted env keyHashes inst))) with
      ⟨compacted, steps, isOpen⟩
    rw [heq] at hsafe
    have hwalked : ∀ e ∈ wanted env keyHashes inst,
        e ∈ (walked env inst).entries.map Prod.snd := fun e he =>
      mem_of_mem_filter he
    refine h.dropAll hinst (fun e he => mem_rows_of_walked (hwalked e he))
      ((walked_sound hsound).sublist _) (fun _ => ?_) heq hsafe _
    exact view_walked_without hsound fun e he => hwalked e (written_subset he)

lemma Inv.expireAsOf (h : Inv c cfg p) (hsafe : Safe c cfg p (.expireAsOf env nowMs crash)) :
    Inv c cfg (step c cfg p (.expireAsOf env nowMs crash)).1 := by
  rw [step]
  cases hinst : p.running with
  | none => exact h
  | some inst =>
    obtain ⟨hsafe, hall⟩ := hsafe inst hinst
    obtain ⟨-, hsound, -, -⟩ := h.running inst hinst
    dsimp only
    rw [TransitLog.expireAsOf] at hsafe ⊢
    simp only [expireAsOf_snd] at hsafe ⊢
    rcases heq : TransitLog.dropAll c cfg env inst (expired env nowMs inst)
      ((walked env inst).without (expired env nowMs inst)) with
      ⟨compacted, steps, isOpen⟩
    rw [heq] at hsafe
    have hwalked : ∀ e ∈ expired env nowMs inst,
        e ∈ (walked env inst).entries.map Prod.snd := fun e he =>
      mem_of_mem_filter he
    refine h.dropAll hinst (fun e he => mem_rows_of_walked (hwalked e he))
      ((walked_sound hsound).sublist _) (fun hwritten => ?_) heq hsafe _
    have hsame : written c cfg env inst (expired env nowMs inst) =
        expired env nowMs inst :=
      hwritten.elim (fun hcrash => written_eq_iff.mpr (hall hcrash)) id
    rw [hsame]
    exact view_walked_without hsound hwalked

/-! ## The theorem -/

/-- **Every event keeps the invariant.** -/
lemma Inv.step (hcfg : cfg.Valid) (event : TransitLogEvent) (hsafe : Safe c cfg p event)
    (h : Inv c cfg p) : Inv c cfg (TransitProcess.step c cfg p event).1 := by
  cases event with
  | openStore env compact crash => exact h.openStore hcfg env compact crash
  | hold env nowMs e crash => exact h.hold hsafe
  | mergeRemoteEnvelope env e crash => exact h.mergeRemoteEnvelope hsafe
  | release env keyHashes crash => exact h.release hsafe
  | expireAsOf env nowMs crash => exact h.expireAsOf hsafe


/-- The store opens with exactly the envelopes `m`. -/
def Reopens (c : Crypto) (cfg : TransitConfig) (p : TransitProcess) (m : Holdings) : Prop :=
  ∃ inst, (openStore c cfg {} {} p.files).1 = .ok inst ∧ inst.store.view = m

lemma Inv.reopens (hcfg : cfg.Valid) (h : Inv c cfg p) : Reopens c cfg p (holdings p.history) := by
  have hopen : ({} : SidecarLog.OpenEnv).made = true ∧ ({} : SidecarLog.OpenEnv).accessible = true :=
    ⟨rfl, rfl⟩
  obtain ⟨store, heq, -, hview⟩ := h.kept.openStore hcfg hopen.1 hopen.2 {}
  rw [Reopens, heq]
  exact ⟨_, rfl, hview⟩

/-- What a call leaves in the map is what is found later. -/
lemma Inv.reopens_running (hcfg : cfg.Valid) (h : Inv c cfg p) (hinst : p.running = some inst) :
    Reopens c cfg p inst.store.view := by
  rw [(h.running inst hinst).2.2.1]
  exact h.reopens hcfg

/-- The envelopes that pass a test are taken out. -/
lemma view_without_filter (h : store.Sound cfg) (q : TransitEnvelope → Bool) :
    (store.without ((store.entries.map Prod.snd).filter q)).view =
      fun k => (store.view k).filter fun e => !q e := by
  funext k
  change get (store.entries.filter _) k = _
  rw [h.distinct.get_filter]
  change _ = (get store.entries k).filter _
  cases hget : get store.entries k with
  | none => rfl
  | some v =>
    have hmem : v ∈ store.entries.map Prod.snd :=
      mem_map.mpr ⟨_, mem_of_get hget, rfl⟩
    have hiff : v ∈ (store.entries.map Prod.snd).filter q ↔ q v = true := by
      rw [mem_filter]
      exact and_iff_right hmem
    have hsame : decide (v ∉ (store.entries.map Prod.snd).filter q) = !q v := by
      rw [Bool.eq_iff_iff, decide_eq_true_iff, hiff, Bool.not_eq_true', Bool.eq_false_iff]
    rw [Option.filter_some, Option.filter_some, hsame]

lemma hold_ok (h : (store.hold appended nowMs e).1 = .ok ()) :
    (store.hold appended nowMs e).2 = store.insert (store.stamped nowMs e) := by
  unfold TransitStore.hold at h ⊢
  split_ifs at h ⊢
  cases appended with
  | error st => cases h
  | ok _ => rfl

lemma merge_ok (h : (store.mergeRemoteEnvelope appended e).1 = .ok ()) :
    (store.mergeRemoteEnvelope appended e).2 = store.insert e := by
  unfold TransitStore.mergeRemoteEnvelope at h ⊢
  split_ifs at h ⊢
  cases appended with
  | error st => cases h
  | ok _ => rfl

/-- A `Release` that succeeds has written the drop records of all envelopes it goes for. -/
lemma written_of_release_ok {compacted : Except Status Unit} {n : ℕ}
    (h : ((walked env inst).release ⟨dropped c cfg env inst, compacted⟩ keyHashes).1 = .ok n) :
    written c cfg env inst (wanted env keyHashes inst) =
      wanted env keyHashes inst := by
  refine written_eq_iff.mpr ?_
  rw [TransitStore.release] at h
  split_ifs at h with hnil
  · subst hnil
    simp [wanted]
  · rcases hfrom : TransitStore.releaseFrom ⟨dropped c cfg env inst, compacted⟩ keyHashes
      (walked env inst).entries with ⟨released, entries⟩
    rw [hfrom] at h
    cases released with
    | error st => cases h
    | ok m =>
      exact releaseFrom_ok ⟨dropped c cfg env inst, compacted⟩ keyHashes
        (congrArg Prod.fst hfrom)

/-- What an acknowledged call leaves to be found, given what was held before. -/
def Acknowledged (c : Crypto) (cfg : TransitConfig) (p : TransitProcess) (inst : TransitInstance)
    (m : Holdings) : TransitLogEvent → Prop
  | .openStore _ _ _ => True
  | .hold env nowMs e crash =>
    let next := step c cfg p (.hold env nowMs e crash)
    next.2 = .held (.ok ()) → Reopens c cfg next.1 (update m
      (transitMapKey e.ownerNode e.keyHash) (some (inst.store.stamped nowMs e)))
  | .mergeRemoteEnvelope env e crash =>
    let next := step c cfg p (.mergeRemoteEnvelope env e crash)
    next.2 = .held (.ok ()) →
      Reopens c cfg next.1 (update m (transitMapKey e.ownerNode e.keyHash) (some e))
  | .release env keyHashes crash =>
    let next := step c cfg p (.release env keyHashes crash)
    ∀ n, next.2 = .dropped (.ok n) →
      Reopens c cfg next.1 fun k => (m k).filter fun e => decide (e.keyHash ∉ keyHashes)
  | .expireAsOf env nowMs crash =>
    let next := step c cfg p (.expireAsOf env nowMs crash)
    ∀ n, next.2 = .dropped (.ok n) →
      Reopens c cfg next.1 fun k => (m k).filter fun e => e.live nowMs

variable {answer : TransitLogAnswer}

/-- A call that answers has not crashed, and what it leaves in the map is found later. -/
lemma reopens_answered (hcfg : cfg.Valid) {q : TransitProcess} {answer' : TransitLogAnswer}
    (hnext : Inv c cfg (q.after (some inst) steps crash answer).1)
    (h : (q.after (some inst) steps crash answer).2 = answer') (hne : answer' ≠ .silent) :
    Reopens c cfg (q.after (some inst) steps crash answer).1 inst.store.view ∧
      answer = answer' := by
  cases crash with
  | none => exact ⟨hnext.reopens_running hcfg rfl, h⟩
  | some point => exact absurd h.symm hne

lemma Inv.acknowledged (hcfg : cfg.Valid) (h : Inv c cfg p) (hinst : p.running = some inst)
    {event : TransitLogEvent} (hsafe : Safe c cfg p event) :
    Acknowledged c cfg p inst (holdings p.history) event := by
  have hnext := h.step hcfg event hsafe
  obtain ⟨-, hsound, hview, -⟩ := h.running inst hinst
  rw [← hview]
  cases event with
  | openStore env compact crash => trivial
  | hold env nowMs e crash =>
    intro hanswer
    rw [TransitProcess.step, hinst] at hanswer hnext ⊢
    dsimp only at hanswer hnext ⊢
    obtain ⟨hfound, hok⟩ := reopens_answered hcfg hnext hanswer nofun
    have hstore : (TransitLog.hold c cfg env nowMs e inst).2.1.store = _ :=
      hold_ok (TransitLogAnswer.held.inj hok)
    rw [hstore, TransitStore.view_insert] at hfound
    exact hfound
  | mergeRemoteEnvelope env e crash =>
    intro hanswer
    rw [TransitProcess.step, hinst] at hanswer hnext ⊢
    dsimp only at hanswer hnext ⊢
    obtain ⟨hfound, hok⟩ := reopens_answered hcfg hnext hanswer nofun
    have hstore : (TransitLog.mergeRemoteEnvelope c cfg env e inst).2.1.store = _ :=
      merge_ok (TransitLogAnswer.held.inj hok)
    rw [hstore, TransitStore.view_insert] at hfound
    exact hfound
  | release env keyHashes crash =>
    intro n hanswer
    rw [TransitProcess.step, hinst] at hanswer hnext ⊢
    dsimp only at hanswer hnext ⊢
    obtain ⟨hfound, hok⟩ := reopens_answered hcfg hnext hanswer nofun
    have hstore : (TransitLog.release c cfg env keyHashes inst).2.1.store = _ :=
      release_snd hsound _ keyHashes
    have hwritten := written_of_release_ok (TransitLogAnswer.dropped.inj hok)
    rw [hstore, hwritten, wanted,
      view_without_filter (walked_sound hsound), view_walked hsound] at hfound
    simpa only [decide_not] using hfound
  | expireAsOf env nowMs crash =>
    intro n hanswer
    rw [TransitProcess.step, hinst] at hanswer hnext ⊢
    dsimp only at hanswer hnext ⊢
    obtain ⟨hfound, hok⟩ := reopens_answered hcfg hnext hanswer nofun
    have hstore : (TransitLog.expireAsOf c cfg env nowMs inst).2.1.store = _ :=
      expireAsOf_snd _ nowMs
    rw [hstore, expired,
      view_without_filter (walked_sound hsound), view_walked hsound] at hfound
    simpa only [Bool.not_not] using hfound

/-- **What the transit store finds when it is opened again**: after any run that meets the condition,
exactly the envelopes that the completely written records amount to, which is what the running store
holds; and what the next call is acknowledged for. -/
theorem transit_reload (hcfg : cfg.Valid) (events : List TransitLogEvent)
    (h : Runs.Guarded (TransitProcess.step c cfg) (Safe c cfg) {} events) :
    let p := Runs.final (TransitProcess.step c cfg) {} events
    Reopens c cfg p (holdings p.history) ∧ ∀ inst, p.running = some inst →
      inst.store.view = holdings p.history ∧
      ∀ event, Safe c cfg p event → Acknowledged c cfg p inst (holdings p.history) event := by
  have hinv : Inv c cfg (Runs.final (TransitProcess.step c cfg) {} events) :=
    Runs.final_invariant (fun p event hsafe hp => hp.step hcfg event hsafe) inv_initial h
  refine ⟨hinv.reopens hcfg, fun inst hinst => ⟨(hinv.running inst hinst).2.2.1, ?_⟩⟩
  exact fun event hsafe => hinv.acknowledged hcfg hinst hsafe

/-! ## Samples -/

/-- A holder in plaintext. -/
def sampleTransit : TransitConfig := { holderNodeId := text "h" }

/-- An envelope for another node. -/
def sampleParcel : TransitEnvelope where
  ownerNode := text "o"
  collection := text "c"
  key := text "k"
  keyHash := List.replicate 32 7
  encodedDoc := [1]

/-- The envelope as it is held. -/
def sampleHeldParcel : TransitEnvelope := { sampleParcel with holderNode := text "h" }

/-- A `Hold` is cut off after one byte, the store is opened again, and the `Hold` is repeated. -/
def tornHold : List TransitLogEvent :=
  [.openStore {} {} none, .hold {} 5 sampleParcel (some (0, 1)), .openStore {} {} none,
    .hold {} 5 sampleParcel none]

/-- The process after some events of the sample holder. -/
def sampleTransitRun (events : List TransitLogEvent) : TransitProcess :=
  Runs.final (TransitProcess.step sampleCrypto sampleTransit) {} events

/-- The answer acknowledges an envelope. -/
def isHeld : TransitLogAnswer → Bool
  | .held (.ok ()) => true
  | _ => false

lemma eq_of_isHeld (h : isHeld answer = true) :
    answer = .held (.ok ()) := by
  unfold isHeld at h
  split at h
  · rfl
  · cases h

/-- The envelope is acknowledged, and gone when the store is opened once more. -/
theorem hold_behind_torn_tail_lost :
    (TransitProcess.step sampleCrypto sampleTransit (sampleTransitRun (tornHold.take 3))
        (.hold {} 5 sampleParcel none)).2 = .held (.ok ()) ∧
      ¬ Reopens sampleCrypto sampleTransit (sampleTransitRun tornHold)
        (holdings (sampleTransitRun tornHold).history) := by
  refine ⟨eq_of_isHeld (by decide +kernel), ?_⟩
  rintro ⟨inst, hopen, hview⟩
  have hentries : (openStore sampleCrypto sampleTransit {} {}
      (sampleTransitRun tornHold).files).1.toOption.map (·.store.entries) = some [] := by
    decide +kernel
  have hheld : (holdings (sampleTransitRun tornHold).history
      (transitMapKey sampleParcel.ownerNode sampleParcel.keyHash)).isSome = true := by
    decide +kernel
  rw [hopen] at hentries
  have hnone : inst.store.entries = [] := Option.some_inj.mp hentries
  rw [← hview, TransitStore.view, hnone] at hheld
  cases hheld

lemma sampleTransit_valid : sampleTransit.Valid := ⟨by decide, Or.inl rfl⟩

/-- A first `Hold`, which meets the condition. -/
theorem transit_reload_sample :
    Reopens sampleCrypto sampleTransit
        (sampleTransitRun [.openStore {} {} none, .hold {} 5 sampleParcel none])
        (holdings (sampleTransitRun [.openStore {} {} none, .hold {} 5 sampleParcel none]).history) ∧
      holdings (sampleTransitRun [.openStore {} {} none, .hold {} 5 sampleParcel none]).history
        (transitMapKey sampleParcel.ownerNode sampleParcel.keyHash) =
          some sampleHeldParcel := by
  have hsafe : Runs.Guarded (TransitProcess.step sampleCrypto sampleTransit)
      (Safe sampleCrypto sampleTransit) {}
      [.openStore {} {} none, .hold {} 5 sampleParcel none] := by
    refine ⟨trivial, fun inst hinst _ => ?_, trivial⟩
    have hstored : (sampleTransitRun [.openStore {} {} none]).running.map
        (·.store.stamped 5 sampleParcel) = some sampleHeldParcel := by decide +kernel
    rw [show (sampleTransitRun [.openStore {} {} none]).running = some inst from hinst] at hstored
    rw [show inst.store.stamped 5 sampleParcel = sampleHeldParcel from Option.some_inj.mp hstored]
    refine ⟨by rfl, ?_, by decide +kernel, fun _ => by rfl⟩
    change _ ≤ _
    decide +kernel
  exact ⟨(transit_reload sampleTransit_valid _ hsafe).1, by decide +kernel⟩

end TransitProcess

end DeSentry
