import DeSentry.Construction.Ledger.OutboxLog
import DeSentry.Framework.Runs
import DeSentry.Properties.SidecarLogs

/-!
# What the outbox finds when it is opened again

The entries that `Load` finds should be those that the records in the log amount to: a `Put` record
stages an entry, a drop record removes it (`staged`).  Three things stand in the way.  `Load` skips
drop records, so a crash between the first drop record and the compaction brings drained entries
back.  A torn frame is left in the file, and what is appended behind it cannot be read.  A record of
more than a mebibyte is written, but not read, and neither is anything behind it.

`outbox_reload` says that nothing else does: as long as no call appends behind a torn frame, every
record is short enough, and a drain is not cut off between its first drop record and the removal of
the old log, the store opens with exactly the staged entries, after any number of crashes.
-/

namespace DeSentry

open ByteCodec RecordLog SidecarLog OutboxProcess ByteWriter OutboxEntry Function List

/-! ## Records -/

namespace OutboxEntry

variable {e : OutboxEntry}

lemma encode_eq : e.encode = u32 kOutboxMagic ++ (u32 kOutboxVersion ++
    (u8 1 ++ (bytes e.collection ++ (bytes e.key ++
    (bytes e.keyHash ++ (bytes e.encodedDoc ++
    (u64 e.hlc.physicalMs ++ (u32 e.hlc.logical ++
    (bytes e.hlc.nodeId ++ (i64 e.createdMs ++ [])))))))))) := by
  simp only [encode, header, append_assoc, append_nil]

/-- The lengths of the byte strings survive the cast to 32 bits. -/
def Sized (e : OutboxEntry) : Prop :=
  e.collection.length < 2 ^ 32 ∧ e.key.length < 2 ^ 32 ∧ e.keyHash.length < 2 ^ 32 ∧
    e.encodedDoc.length < 2 ^ 32 ∧ e.hlc.nodeId.length < 2 ^ 32

lemma sized_of_length (h : e.encode.length < 2 ^ 32) : e.Sized := by
  rw [encode_eq] at h
  simp only [length_append, length_bytes] at h
  refine ⟨?_, ?_, ?_, ?_, ?_⟩ <;> omega

/-- **The round trip** of an entry that `Put` accepts. -/
lemma decode_encode (hcollection : e.collection ≠ []) (hhash : e.keyHash.length = kWalHashLen)
    (hsized : e.Sized) : decode e.encode = .ok e := by
  obtain ⟨hcoll, hkey, hkeyHash, hdoc, hnode⟩ := hsized
  have hvalid : ¬ (e.collection = [] ∨ e.keyHash.length ≠ kWalHashLen) :=
    not_or.mpr ⟨hcollection, not_not.mpr hhash⟩
  have hrun : readBody.run e.encode = .ok (.ok e, []) := by
    rw [encode_eq, readBody, (reads_u32 _).run_bind, if_neg (not_not.mpr rfl),
      (reads_u32 _).run_bind, if_neg (not_not.mpr rfl), (reads_u8 _).run_bind,
      if_neg (by decide), if_neg (not_not.mpr rfl), readEntry, (reads_bytes hcoll).run_bind,
      (reads_bytes hkey).run_bind, (reads_bytes hkeyHash).run_bind, (reads_bytes hdoc).run_bind,
      (reads_u64 _).run_bind, (reads_u32 _).run_bind, (reads_bytes hnode).run_bind,
      (reads_i64 _).run_bind, if_neg hvalid]
    rfl
  rw [decode, hrun]

end OutboxEntry

namespace OutboxRecord

/-- The bytes of a record. -/
def body : OutboxRecord → Bytes
  | .put e => e.encode
  | .drop collection keyHash => encodeDrop collection keyHash

variable (r : OutboxRecord)

lemma exists_body_eq : ∃ rest, r.body = u32 kOutboxMagic ++ rest := by
  cases r with
  | put e => exact ⟨_, encode_eq⟩
  | drop collection keyHash =>
    exact ⟨_, rfl⟩

lemma plain_body : AtRest.looksSealedRecord r.body = false ∧ 4 ≤ r.body.length :=
  plain_of_magic (length_u32 _) (by decide) r.exists_body_eq

end OutboxRecord

/-! ## What the records amount to -/

/-- The staged entries, by map key. -/
abbrev Staged := Bytes → Option OutboxEntry

/-- What a record means. -/
def OutboxRecord.apply (m : Staged) : OutboxRecord → Staged
  | .put e => update m (outboxMapKey e.collection e.keyHash) (some e)
  | .drop collection keyHash => update m (outboxMapKey collection keyHash) none

/-- What a list of records amounts to. -/
def staged (records : List OutboxRecord) : Staged := records.foldl OutboxRecord.apply fun _ => none

variable (store : OutboxStore)

/-- What is seen of a store. -/
def OutboxStore.view : Staged := AssocMap.get store.entries

lemma OutboxStore.view_insert (e : OutboxEntry) :
    (store.insert e).view = OutboxRecord.apply store.view (.put e) := by
  funext k
  change AssocMap.get (AssocMap.set _ _ _) k = _
  rw [AssocMap.get_set, OutboxRecord.apply, update_apply]
  rfl

/-- The store after an append of an entry. -/
def OutboxStore.inserted (appended : Except Status Unit) (e : OutboxEntry) : OutboxStore :=
  match appended with
  | .error _ => store
  | .ok () => store.insert e

lemma staged_append (records more : List OutboxRecord) :
    staged (records ++ more) = more.foldl OutboxRecord.apply (staged records) :=
  foldl_append

lemma staged_exec_append (s : Recorded OutboxRecord) (r : OutboxRecord) (frame : Bytes) :
    staged (s.exec [.append r frame]).history = r.apply (staged s.history) :=
  staged_append s.history [r]

lemma staged_exec_tear (s : Recorded OutboxRecord) (bytes : Bytes) :
    staged (s.exec [.tear bytes]).history = staged s.history :=
  congrArg staged (append_nil s.history)

/-- An entry is staged under its own key. -/
lemma staged_key {records : List OutboxRecord} {k : Bytes} {e : OutboxEntry}
    (h : staged records k = some e) : k = outboxMapKey e.collection e.keyHash := by
  induction records using List.reverseRecOn with
  | nil => cases h
  | append_singleton records r ih =>
    rw [staged_append, foldl_cons, foldl_nil] at h
    cases r with
    | put e' =>
      rw [OutboxRecord.apply, update_apply] at h
      split_ifs at h with hk
      · rw [hk, Option.some_inj.mp h]
      · exact ih h
    | drop collection keyHash =>
      rw [OutboxRecord.apply, update_apply] at h
      split_ifs at h
      exact ih h

/-- A key that is dropped is gone. -/
lemma foldl_drop_apply (out : List OutboxEntry) (m : Staged) (k : Bytes) :
    (out.map fun e => OutboxRecord.drop e.collection e.keyHash).foldl OutboxRecord.apply m k =
      if ∃ e ∈ out, outboxMapKey e.collection e.keyHash = k then none else m k := by
  induction out generalizing m with
  | nil => simp
  | cons e out ih =>
    rw [map_cons, foldl_cons, ih, OutboxRecord.apply]
    by_cases hk : k = outboxMapKey e.collection e.keyHash
    · simp [hk]
    · simp [hk, Ne.symm hk]

/-! ## Loading -/

/-- An entry that `Put` accepts. -/
structure OutboxEntry.Valid (e : OutboxEntry) : Prop where
  collection : e.collection ≠ []
  keyHash : e.keyHash.length = kWalHashLen

/-- Parameters that `Open` accepts. -/
structure OutboxConfig.Valid (cfg : OutboxConfig) : Prop where
  localNodeId : cfg.localNodeId ≠ []
  key : (OutboxLog.sidecar cfg).Valid

/-- The log holds `Put` records and perhaps a torn frame, and they amount to what was recorded. -/
def OutboxLog.Kept (c : Crypto) (cfg : OutboxConfig) (s : Recorded OutboxRecord) : Prop :=
  ∃ (entries : List OutboxEntry) (tail : Bytes), (∀ e ∈ entries, e.Valid) ∧
    Logged c (OutboxLog.sidecar cfg) (entries.map (·.encode)) tail ((s.files .log).getD []) ∧
    staged (entries.map .put) = staged s.history

namespace OutboxLog

variable {c : Crypto} {cfg : OutboxConfig} {e : OutboxEntry} {payload : Bytes}

/-- A payload of an entry stages it. -/
lemma carries_encode (hread : Readable c (sidecar cfg) e.encode payload) (he : e.Valid) :
    Format.Carries (judge c cfg (subkey c (sidecar cfg))) OutboxStore.view
      (fun m e => OutboxRecord.apply m (.put e)) payload e := by
  intro store
  have hlen : e.encode.length < 2 ^ 32 := by
    have hle : payload.length ≤ kRecordCap := hread.fits.2
    rw [hread.isPayload.length, kRecordCap] at hle
    omega
  refine ⟨store.insert e, ?_, store.view_insert e⟩
  rw [judge, hread.isPayload.openBody hread.plain]
  dsimp only
  rw [decode_encode he.collection he.keyHash (sized_of_length hlen)]

lemma forall₂_carries {entries : List OutboxEntry} (hvalid : ∀ e ∈ entries, e.Valid)
    {payloads : List Bytes}
    (h : List.Forall₂ (Readable c (sidecar cfg)) (entries.map (·.encode)) payloads) :
    List.Forall₂ (Format.Carries (judge c cfg (subkey c (sidecar cfg))) OutboxStore.view
      fun m e => OutboxRecord.apply m (.put e)) payloads entries := by
  induction entries generalizing payloads with
  | nil =>
    cases h
    exact .nil
  | cons e entries ih =>
    rw [forall_mem_cons] at hvalid
    cases h with
    | cons hread hrest => exact .cons (carries_encode hread hvalid.1) (ih hvalid.2 hrest)

variable {env : SidecarLog.OpenEnv}

/-- **A kept log opens**, with the staged entries. -/
lemma Kept.openStore {s : Recorded OutboxRecord} (hcfg : cfg.Valid) (h : Kept c cfg s)
    (hmade : env.made = true) (haccessible : env.accessible = true) :
    ∃ store : OutboxStore, openStore c cfg env s.files =
        (.ok { store, subkey := subkey c (sidecar cfg) },
          update s.files .log (some ((s.files .log).getD []))) ∧
      store.view = staged s.history := by
  obtain ⟨entries, tail, hvalid, hlogged, hstaged⟩ := h
  have hkey := hlogged.openSubkey hcfg.key hmade
  obtain ⟨htorn, payloads, hread, hcontents⟩ := hlogged
  obtain ⟨store, hload, hview⟩ := Format.load_carries (forall_fits hread)
    (forall₂_carries hvalid hread) htorn.readFrame ({} : OutboxStore)
  refine ⟨store, ?_, ?_⟩
  · rw [OutboxLog.openStore, if_neg hcfg.localNodeId, hkey]
    dsimp only
    rw [haccessible, hcontents, hload]
    rfl
  · rw [hview, ← hstaged, staged, foldl_map]
    rfl

lemma openStore_refused (c : Crypto) (cfg : OutboxConfig)
    (h : ¬ (env.made = true ∧ env.accessible = true)) (files : Files) :
    ∃ failure, openStore c cfg env files = (.error failure, files) := by
  unfold OutboxLog.openStore
  by_cases hid : cfg.localNodeId = []
  · exact ⟨_, if_pos hid⟩
  rw [if_neg hid]
  cases hkey : openSubkey c (sidecar cfg) env (files .log) with
  | error st => exact ⟨_, rfl⟩
  | ok key =>
    have hclosed : env.accessible = false :=
      Bool.eq_false_iff.mpr fun hopen => h ⟨openSubkey_eq_ok hkey, hopen⟩
    rw [hclosed]
    exact ⟨_, rfl⟩

/-- `Put` of an entry that passes the checks. -/
lemma put_eq {inst : OutboxInstance} {env : SidecarLog.AppendEnv} {nowMs : Int64}
    (hcheck : OutboxStore.checkPut e = .ok ()) :
    put c cfg env nowMs e inst =
      let appended := appendRecord c (sidecar cfg) env inst.subkey inst.isOpen
        (.put { e with createdMs := nowMs }) { e with createdMs := nowMs }.encode
      (appended.1, { inst with
        store := inst.store.inserted appended.1 { e with createdMs := nowMs } }, appended.2) := by
  unfold put OutboxStore.put
  rw [hcheck]
  dsimp only
  cases (appendRecord c (sidecar cfg) env inst.subkey inst.isOpen
    (OutboxRecord.put { e with createdMs := nowMs }) { e with createdMs := nowMs }.encode).1 <;> rfl

lemma valid_of_checkPut (hcheck : OutboxStore.checkPut e = .ok ()) : e.Valid := by
  unfold OutboxStore.checkPut at hcheck
  split_ifs at hcheck with hcollection hhash
  exact ⟨hcollection, not_not.mp hhash⟩

end OutboxLog

/-! ## The condition -/

namespace OutboxProcess

variable (c : Crypto) (cfg : OutboxConfig)

/-- No torn frame at the end of the log. -/
def Whole (files : Files) : Prop := (format.split ((files .log).getD [])).2 = []

/-- `file_->good()` tells whether all bytes of a frame have reached the file. -/
def Truthful (env : SidecarLog.AppendEnv) (length : ℕ) : Prop :=
  if env.writeGood then env.reached = none else ∃ k < length, env.reached = some k

/-- A body whose record is read back. -/
def Short (body : Bytes) : Prop := body.length + overhead (OutboxLog.sidecar cfg) ≤ kRecordCap

/-- **The condition.**  A `Put` finds no torn frame at the end of the log and its record is short
enough.  A `DrainAll` is cut off before its first drop record is complete, with no torn frame before
it, or it writes all drop records and removes the log. -/
def Safe (p : OutboxProcess) : OutboxLogEvent → Prop
  | .openStore _ => True
  | .put env nowMs e crash => ∀ inst, p.running = some inst → OutboxStore.checkPut e = .ok () →
      let body := { e with createdMs := nowMs }.encode
      Whole p.files ∧ Short cfg body ∧
        (crash = none → Truthful env (body.length + overhead (OutboxLog.sidecar cfg) + 8))
  | .drainAll order drops compact crash => ∀ inst, p.running = some inst →
      inst.store.entries ≠ [] →
      let out := inst.store.drained order
      let steps := executed (OutboxLog.drainAll c cfg order drops compact inst).2.2 crash
      (∀ e ∈ out, Short cfg (encodeDrop e.collection e.keyHash)) ∧
        ((Whole p.files ∧ (∃ k, crash = some (0, k)) ∧ steps.filterMap Step.record = []) ∨
          steps.filterMap Step.record = out.map (fun e => .drop e.collection e.keyHash) ∧
            .file (.remove .log) ∈ steps)

/-! ## The invariant -/

/-- The log amounts to what was recorded, and so does the map of a store that is open. -/
structure Inv (p : OutboxProcess) : Prop where
  kept : OutboxLog.Kept c cfg p.toRecorded
  running : ∀ inst, p.running = some inst → inst.subkey = subkey c (OutboxLog.sidecar cfg) ∧
    inst.store.view = staged p.history ∧ (inst.isOpen = true → ∃ bytes, p.files .log = some bytes)

variable {c cfg} {p : OutboxProcess}

lemma inv_initial : Inv c cfg {} where
  kept := ⟨[], [], by simp, logged_nil, rfl⟩
  running _ h := nomatch h

/-- Opening. -/
lemma Inv.openStore (hcfg : cfg.Valid) (h : Inv c cfg p) (env : SidecarLog.OpenEnv) :
    Inv c cfg (step c cfg p (.openStore env)).1 := by
  by_cases hok : env.made = true ∧ env.accessible = true
  · obtain ⟨store, heq, hview⟩ := h.kept.openStore hcfg hok.1 hok.2
    have hlog : update p.files .log (some ((p.files .log).getD [])) .log =
      some ((p.files .log).getD []) := update_self ..
    rw [step, heq]
    refine ⟨?_, ?_⟩
    · obtain ⟨entries, tail, hvalid, hlogged, hstaged⟩ := h.kept
      refine ⟨entries, tail, hvalid, ?_, hstaged⟩
      dsimp only
      rwa [hlog]
    · rintro inst hinst
      obtain rfl := Option.some_inj.mp hinst
      exact ⟨rfl, hview, fun _ => ⟨_, hlog⟩⟩
  · obtain ⟨failure, heq⟩ := OutboxLog.openStore_refused c cfg hok p.files
    rw [step, heq]
    exact ⟨h.kept, fun inst hinst => nomatch hinst⟩

variable {inst : OutboxInstance} {steps : List (Step OutboxRecord)} {crash : Option (ℕ × ℕ)}

/-- A call with its steps. -/
lemma inv_after (answer : OutboxLogAnswer)
    (hkept : OutboxLog.Kept c cfg (p.exec (executed steps crash)))
    (hrunning : crash = none → inst.subkey = subkey c (OutboxLog.sidecar cfg) ∧ inst.store.view =
      staged (p.exec steps).history ∧ (inst.isOpen = true → ∃ bytes, (p.exec steps).files .log =
      some bytes)) :
    Inv c cfg (p.after inst steps crash answer).1 := by
  refine ⟨hkept, fun inst' hinst' => ?_⟩
  change (if crash.isNone then some inst else none) = some inst' at hinst'
  cases crash with
  | none =>
    obtain rfl := Option.some_inj.mp hinst'
    exact hrunning rfl
  | some point => cases hinst'

/-- A call that does nothing to the files, and nothing to the map. -/
lemma Inv.after_nil (h : Inv c cfg p) (hinst : p.running = some inst) (crash : Option (ℕ × ℕ))
    (answer : OutboxLogAnswer) :
    Inv c cfg (p.after inst [] crash answer).1 := by
  refine inv_after answer ?_ fun _ => ?_
  · rw [executed_nil, exec_nil]
    exact h.kept
  · rw [exec_nil]
    exact h.running inst hinst

variable {s : Recorded OutboxRecord} {e : OutboxEntry}

/-- **Appends behind whole records**, of entries that `Put` accepts. -/
lemma kept_appends (h : OutboxLog.Kept c cfg s) (hwhole : Whole s.files) {bytes : Bytes}
    (hlog : s.files .log = some bytes)
    (hsteps : Appends c (OutboxLog.sidecar cfg) OutboxRecord.body steps)
    (he : ∀ r ∈ steps.filterMap Step.record, r = .put e ∧ e.Valid) :
    OutboxLog.Kept c cfg (s.exec steps) := by
  obtain ⟨entries, tail, hentries, hlogged, hstaged⟩ := h
  obtain rfl : tail = [] := by
    rw [← hlogged.split_snd, hwhole]
  rw [hlog] at hlogged
  have hrecords : (entries.map OutboxRecord.put).map OutboxRecord.body =
    entries.map (·.encode) := map_map
  rw [← hrecords] at hlogged
  obtain ⟨tail, hlogged⟩ := hlogged.appends hsteps
  obtain ⟨n, hn⟩ : ∃ n, steps.filterMap Step.record = List.replicate n (.put e) :=
    ⟨_, eq_replicate_of_mem fun r hr => (he r hr).1⟩
  rw [hn, ← map_replicate, ← map_append, map_map] at hlogged
  refine ⟨entries ++ List.replicate n e, tail, fun e' he' => ?_, ?_, ?_⟩
  · rcases mem_append.mp he' with hmem | hmem
    · exact hentries e' hmem
    · obtain ⟨hpos, rfl⟩ := mem_replicate.mp hmem
      exact (he (.put e') (by rw [hn]; exact mem_replicate.mpr ⟨hpos, rfl⟩)).2
  · rwa [show (s.exec steps).files .log = some _ from hsteps.log hlog, Option.getD_some]
  · rw [map_append, staged_append, hstaged, Recorded.exec, staged_append, hn,
      map_replicate]

variable {env : SidecarLog.AppendEnv}

/-- **An entry is appended**, and goes to the map if that succeeds. -/
lemma Inv.append (h : Inv c cfg p) (hinst : p.running = some inst) (hvalid : e.Valid)
    (hwhole : Whole p.files) (hshort : Short cfg e.encode)
    (htruth : crash = none → Truthful env (e.encode.length + overhead (OutboxLog.sidecar cfg) + 8))
    {appended : Except Status Unit}
    (heq : appendRecord c (OutboxLog.sidecar cfg) env inst.subkey inst.isOpen (.put e) e.encode =
      (appended, steps)) (answer : OutboxLogAnswer) :
    Inv c cfg (p.after { inst with store := inst.store.inserted appended e } steps crash
      answer).1 := by
  obtain ⟨hkey, hview, hopen⟩ := h.running inst hinst
  rw [hkey] at heq
  obtain ⟨happends, hisOpen, hrecord, htold⟩ := appendRecord_spec OutboxRecord.body (.put e)
    (OutboxRecord.plain_body _) hshort env inst.isOpen heq
  refine inv_after answer ?_ fun hcrash => ⟨hkey, ?_, fun hisOpen => ?_⟩
  · by_cases hnil : steps = []
    · rw [hnil, executed_nil, exec_nil]
      exact h.kept
    obtain ⟨bytes, hlog⟩ := hopen (hisOpen hnil)
    refine kept_appends h.kept hwhole hlog ?_ fun r hr => ⟨hrecord crash r hr, hvalid⟩
    rcases crash with _ | ⟨n, k⟩
    · exact happends
    · exact happends.interrupted n k
  · obtain ⟨hok, herr⟩ := htold (htruth hcrash)
    cases appended with
    | error st =>
      rw [Recorded.exec, herr (by rintro ⟨⟩), append_nil]
      exact hview
    | ok _ =>
      obtain ⟨payload, -, rfl⟩ := hok rfl
      dsimp only [OutboxStore.inserted]
      rw [OutboxStore.view_insert, hview]
      exact (staged_exec_append p.toRecorded (.put e) (format.frame payload)).symm
  · obtain ⟨bytes, hlog⟩ := hopen hisOpen
    exact ⟨_, happends.log hlog⟩

variable {nowMs : Int64}

/-- A `Put`. -/
lemma Inv.put (h : Inv c cfg p) (hsafe : Safe c cfg p (.put env nowMs e crash)) :
    Inv c cfg (step c cfg p (.put env nowMs e crash)).1 := by
  rw [step]
  cases hinst : p.running with
  | none => exact h
  | some inst =>
    dsimp only
    cases hcheck : OutboxStore.checkPut e with
    | error st =>
      rw [OutboxLog.put, hcheck]
      exact h.after_nil hinst crash _
    | ok _ =>
      obtain ⟨hwhole, hshort, htruth⟩ := hsafe inst hinst hcheck
      have hvalid := OutboxLog.valid_of_checkPut hcheck
      rw [OutboxLog.put_eq hcheck]
      exact h.append hinst (e := { e with createdMs := nowMs })
        ⟨hvalid.collection, hvalid.keyHash⟩ hwhole hshort htruth Prod.mk.eta.symm _

variable {drops : ℕ → SidecarLog.AppendEnv} {out : List OutboxEntry}

/-- The drop records of a drain are appended, or parts of them. -/
lemma mem_dropSteps {st : Step OutboxRecord} (hkey : inst.subkey = subkey c (OutboxLog.sidecar cfg))
    (h : st ∈ OutboxLog.dropSteps c cfg drops inst out) :
    inst.isOpen = true ∧ ∃ e ∈ out, ∃ payload, IsPayload c (OutboxLog.sidecar cfg)
        (encodeDrop e.collection e.keyHash) payload ∧
      Partial (.drop e.collection e.keyHash) (format.frame payload) st := by
  rw [OutboxLog.dropSteps, mem_flatten] at h
  obtain ⟨steps, hsteps, hst⟩ := h
  obtain ⟨i, hi, rfl⟩ := mem_mapIdx.mp hsteps
  rw [hkey] at hst
  rcases appendRecord_cases c (OutboxLog.sidecar cfg) (drops i) inst.isOpen
      (OutboxRecord.drop out[i].collection out[i].keyHash)
      (encodeDrop out[i].collection out[i].keyHash) with
    ⟨hnil, -⟩ | ⟨hisOpen, payload, hpayload, hone, -⟩
  · rw [hnil] at hst
    cases hst
  · rw [hone, mem_singleton] at hst
    exact ⟨hisOpen, out[i], getElem_mem hi, payload, hpayload,
      hst ▸ partial_reached _ _ _⟩

/-- Without its entries, nothing is staged. -/
lemma staged_drop_all {store : OutboxStore} {history : List OutboxRecord}
    (h : store.view = staged history) (order : MapOrder OutboxEntry) :
    staged (history ++ (store.drained order).map fun e => .drop e.collection e.keyHash) =
      fun _ => none := by
  funext k
  rw [staged_append, foldl_drop_apply]
  split_ifs with hdropped
  · rfl
  · cases hk : staged history k with
    | none => rfl
    | some e =>
      refine absurd ⟨e, ?_, (staged_key hk).symm⟩ hdropped
      have hget : AssocMap.get store.entries k = some e := (congrFun h k).trans hk
      have hmem : e ∈ store.entries.map Prod.snd :=
        mem_map.mpr ⟨(k, e), AssocMap.mem_of_get hget, rfl⟩
      exact KeyedList.mem_sortBy.mpr ((order.2 _).mem_iff.mpr hmem)

variable {order : MapOrder OutboxEntry} {compact : SidecarLog.CompactEnv}

lemma drainAll_of_empty (h : inst.store.drained order = []) :
    OutboxLog.drainAll c cfg order drops compact inst = ([], inst, []) := if_pos h

lemma drainAll_of_ne (h : inst.store.drained order ≠ []) :
    OutboxLog.drainAll c cfg order drops compact inst =
      let comp := compactLocked c (OutboxLog.sidecar cfg) compact inst.subkey inst.isOpen []
      (inst.store.drained order, { inst with store := {}, isOpen := comp.2.2 },
        OutboxLog.dropSteps c cfg drops inst (inst.store.drained order) ++ comp.2.1) := if_neg h

/-- Nothing was torn off. -/
lemma kept_tear_nil (h : OutboxLog.Kept c cfg s) :
    OutboxLog.Kept c cfg (s.exec [.tear []]) := by
  obtain ⟨entries, tail, hvalid, hlogged, hstaged⟩ := h
  refine ⟨entries, tail, hvalid, ?_, by rw [hstaged, staged_exec_tear]⟩
  rwa [show (s.exec [.tear []]).files .log = s.files .log from quiet_tear.2 s.files]

/-- The first step of a drain, cut off before its record is complete. -/
lemma Inv.kept_interrupted (h : Inv c cfg p) (hinst : p.running = some inst)
    (hshort : ∀ e ∈ out, Short cfg (encodeDrop e.collection e.keyHash))
    (hwhole : Whole p.files) {comp : List (Step OutboxRecord)}
    (hcomp : ∀ st ∈ comp, ∃ f, st = .file f) {k : ℕ}
    (hnone : (interrupted (OutboxLog.dropSteps c cfg drops inst out ++ comp) 0 k).filterMap
      Step.record = []) :
    OutboxLog.Kept c cfg
      (p.exec (interrupted (OutboxLog.dropSteps c cfg drops inst out ++ comp) 0 k)) := by
  obtain ⟨hkey, -, hopen⟩ := h.running inst hinst
  cases hdrops : OutboxLog.dropSteps c cfg drops inst out with
  | nil =>
    cases comp with
    | nil =>
      change OutboxLog.Kept c cfg (p.exec [])
      rw [exec_nil]
      exact h.kept
    | cons st comp =>
      obtain ⟨f, rfl⟩ := hcomp st mem_cons_self
      exact kept_tear_nil h.kept
  | cons st rest =>
    rw [hdrops] at hnone
    have hmem : st ∈ OutboxLog.dropSteps c cfg drops inst out := hdrops ▸ mem_cons_self
    obtain ⟨hisOpen, e, he, payload, hpayload, hpartial⟩ := mem_dropSteps hkey hmem
    obtain ⟨bytes, hlog⟩ := hopen hisOpen
    have hread : Readable c (OutboxLog.sidecar cfg)
        (OutboxRecord.body (.drop e.collection e.keyHash)) payload :=
      readable_of_short hpayload (OutboxRecord.plain_body _) (hshort e he)
    refine kept_appends (e := e) h.kept hwhole hlog
      ( appends_of_partial hread ( hpartial.cut k)) fun r hr => ?_
    rw [hnone] at hr
    cases hr

/-- A `DrainAll`. -/
lemma Inv.drainAll (h : Inv c cfg p) (hsafe : Safe c cfg p (.drainAll order drops compact crash)) :
    Inv c cfg (step c cfg p (.drainAll order drops compact crash)).1 := by
  rw [step]
  cases hinst : p.running with
  | none => exact h
  | some inst =>
    obtain ⟨hkey, hview, hopen⟩ := h.running inst hinst
    have hnil : inst.store.drained order = [] ↔ inst.store.entries = [] := by
      rw [← length_eq_zero_iff, OutboxStore.drained, KeyedList.length_sortBy,
        (order.2 _).length_eq, length_map, length_eq_zero_iff]
    dsimp only
    by_cases hempty : inst.store.entries = []
    · rw [drainAll_of_empty (hnil.mpr hempty)]
      exact h.after_nil hinst crash _
    have hcases := compactLocked_cases c (OutboxLog.sidecar cfg) OutboxRecord compact inst.subkey
      inst.isOpen []
    have hsafe := hsafe inst hinst hempty
    rw [drainAll_of_ne (mt hnil.mp hempty)] at hsafe ⊢
    generalize compactLocked c (OutboxLog.sidecar cfg) compact inst.subkey inst.isOpen [] = comp
      at hcases hsafe ⊢
    obtain ⟨answer, comp, isOpen⟩ := comp
    dsimp only at hcases hsafe ⊢
    obtain ⟨hshort, ⟨hwhole, ⟨k, rfl⟩, hnone⟩ | ⟨hall, hremoved⟩⟩ := hsafe
    · refine inv_after _ (h.kept_interrupted hinst hshort hwhole ?_ hnone) nofun
      intro st hst
      rcases hcases with hnone | ⟨payloads, -, htwo | ⟨isOpen', hfull⟩⟩
      · rw [(Prod.mk.inj hnone).1] at hst
        cases hst
      · rw [(Prod.mk.inj htwo).1] at hst
        exact exists_file_of_mem_commitSteps (mem_of_mem_take hst)
      · rw [(Prod.mk.inj hfull).1] at hst
        exact exists_file_of_mem_commitSteps hst
    · have hfile : ∀ f, .file f ∉ OutboxLog.dropSteps c cfg drops inst
          (inst.store.drained order) := by
        intro f hf
        obtain ⟨-, e, -, payload, -, hpartial⟩ := mem_dropSteps hkey hf
        rcases hpartial with heq | ⟨k, -, heq⟩ <;> cases heq
      have hstaged : staged (p.exec (executed (OutboxLog.dropSteps c cfg drops inst
          (inst.store.drained order) ++ comp) crash)).history = fun _ => none := by
        rw [Recorded.exec, hall]
        exact staged_drop_all hview order
      rcases hcases with hnone | ⟨payloads, hseal, hcomp⟩
      · rw [(Prod.mk.inj hnone).1, append_nil] at hremoved
        exact absurd (mem_of_mem_executed_file hremoved) (hfile _)
      obtain rfl : payloads = [] := (Except.ok.inj hseal).symm
      have hform : comp = (commitSteps []).take 2 ∨ comp = commitSteps [] := by
        rcases hcomp with htwo | ⟨isOpen', hfull⟩
        · exact Or.inl (Prod.mk.inj htwo).1
        · exact Or.inr (Prod.mk.inj hfull).1
      obtain ⟨done, hexec, hdone⟩ := executed_removed hfile hform hremoved
      have hlog : ((p.exec (executed (OutboxLog.dropSteps c cfg drops inst
          (inst.store.drained order) ++ comp) crash)).files .log).getD [] = [] := by
        rw [Recorded.exec, hexec, foldl_append]
        dsimp only
        obtain ⟨htwo, htear, hfull⟩ := log_commit OutboxRecord ((OutboxLog.dropSteps c cfg drops inst
          (inst.store.drained order)).foldl Step.apply p.files) []
        rcases hdone with rfl | rfl | rfl
        · rw [htwo, Option.getD_none]
        · rw [htear, Option.getD_none]
        · rw [hfull, Option.getD_some]
      refine inv_after _ ⟨[], [], by simp, ?_, hstaged.symm⟩ ?_
      · rw [hlog]
        exact logged_nil
      · rintro rfl
        refine ⟨hkey, hstaged.symm, fun hisOpen => ?_⟩
        rcases hcomp with htwo | ⟨isOpen', hfull⟩
        · rw [(Prod.mk.inj htwo).2] at hisOpen
          cases hisOpen
        · rw [(Prod.mk.inj hfull).1, Recorded.exec, foldl_append]
          dsimp only
          exact ⟨_, (log_commit OutboxRecord _ _).2.2⟩

/-! ## The theorem -/

/-- **Every event keeps the invariant.** -/
lemma Inv.step (hcfg : cfg.Valid) (event : OutboxLogEvent) (hsafe : Safe c cfg p event)
    (h : Inv c cfg p) : Inv c cfg (step c cfg p event).1 := by
  cases event with
  | openStore env => exact h.openStore hcfg env
  | put env nowMs e crash => exact h.put hsafe
  | drainAll order drops compact crash => exact h.drainAll hsafe

/-- A `Put` that is acknowledged has written its record. -/
lemma history_of_acknowledged (hinv : Inv c cfg p) (hsafe : Safe c cfg p (.put env nowMs e none))
    (hok : (step c cfg p (.put env nowMs e none)).2 = .put (.ok ())) :
    (step c cfg p (.put env nowMs e none)).1.history =
      p.history ++ [.put { e with createdMs := nowMs }] := by
  rw [step] at hok ⊢
  cases hinst : p.running with
  | none =>
    rw [hinst] at hok
    cases hok
  | some inst =>
    rw [hinst] at hok
    dsimp only at hok ⊢
    cases hcheck : OutboxStore.checkPut e with
    | error st =>
      rw [OutboxLog.put, hcheck] at hok
      cases hok
    | ok _ =>
      obtain ⟨-, -, htruth⟩ := hsafe inst hinst hcheck
      have hkey := (hinv.running inst hinst).1
      have hcases := appendRecord_cases c (OutboxLog.sidecar cfg) env inst.isOpen
        (OutboxRecord.put { e with createdMs := nowMs }) { e with createdMs := nowMs }.encode
      rw [OutboxLog.put_eq hcheck, hkey] at hok ⊢
      have hanswer := OutboxLogAnswer.put.inj hok
      rcases hcases with ⟨-, hne⟩ | ⟨-, payload, -, hsteps, hgood⟩
      · exact absurd hanswer hne
      · have htruth := htruth rfl
        rw [Truthful, hgood.mp hanswer] at htruth
        rw [hsteps, htruth]
        rfl

/-- The store opens with exactly the entries that the completely written records stage. -/
def Reloads (c : Crypto) (cfg : OutboxConfig) (p : OutboxProcess) : Prop :=
  ∃ inst, (OutboxLog.openStore c cfg {} p.files).1 = .ok inst ∧
    inst.store.view = staged p.history

lemma Inv.reloads (hcfg : cfg.Valid) (h : Inv c cfg p) : Reloads c cfg p := by
  have hopen : ({} : SidecarLog.OpenEnv).made = true ∧ ({} : SidecarLog.OpenEnv).accessible = true :=
    ⟨rfl, rfl⟩
  obtain ⟨store, heq, hview⟩ := h.kept.openStore hcfg hopen.1 hopen.2
  rw [Reloads, heq]
  exact ⟨_, rfl, hview⟩

/-- **What the outbox finds when it is opened again**: after any run that meets the condition,
exactly the entries that the completely written records stage; and an entry whose `Put` is
acknowledged is among them. -/
theorem outbox_reload (hcfg : cfg.Valid) (events : List OutboxLogEvent)
    (h : Runs.Guarded (step c cfg) (Safe c cfg) {} events) :
    let p := Runs.final (step c cfg) {} events
    Reloads c cfg p ∧ ∀ env nowMs e, Safe c cfg p (.put env nowMs e none) →
      (step c cfg p (.put env nowMs e none)).2 = .put (.ok ()) →
      ∃ inst, (OutboxLog.openStore c cfg {}
          (step c cfg p (.put env nowMs e none)).1.files).1 = .ok inst ∧
        inst.store.view (outboxMapKey e.collection e.keyHash) =
          some { e with createdMs := nowMs } := by
  have hinv : Inv c cfg (Runs.final (step c cfg) {} events) :=
    Runs.final_invariant (fun p event hsafe hp => hp.step hcfg event hsafe) inv_initial h
  refine ⟨hinv.reloads hcfg, fun env nowMs e hsafe hok => ?_⟩
  obtain ⟨inst, hopen, hview⟩ := (hinv.step hcfg _ hsafe).reloads hcfg
  refine ⟨inst, hopen, ?_⟩
  rw [hview, history_of_acknowledged hinv hsafe hok, staged_append]
  exact update_self ..

/-! ## Samples -/

/-- A node in plaintext. -/
def sampleOutbox : OutboxConfig := { localNodeId := text "n" }

/-- An entry. -/
def sampleStaged : OutboxEntry where
  collection := text "c"
  key := text "k"
  keyHash := List.replicate 32 7
  encodedDoc := [1]
  hlc := ⟨1, 0, text "n"⟩

/-- A `Put` is cut off after one byte, the store is opened again, and the `Put` is repeated. -/
def tornTail : List OutboxLogEvent :=
  [.openStore {}, .put {} 5 sampleStaged (some (0, 1)), .openStore {}, .put {} 5 sampleStaged none]

/-- The process after some events of the sample node. -/
def sampleOutboxRun (events : List OutboxLogEvent) : OutboxProcess :=
  Runs.final (step sampleCrypto sampleOutbox) {} events

/-- The entry is acknowledged, and gone when the store is opened once more. -/
theorem put_behind_torn_tail_lost :
    (step sampleCrypto sampleOutbox (sampleOutboxRun (tornTail.take 3))
        (.put {} 5 sampleStaged none)).2 = .put (.ok ()) ∧
      ¬ Reloads sampleCrypto sampleOutbox (sampleOutboxRun tornTail) := by
  refine ⟨rfl, ?_⟩
  rintro ⟨inst, hopen, hview⟩
  have hentries : (OutboxLog.openStore sampleCrypto sampleOutbox {}
      (sampleOutboxRun tornTail).files).1.toOption.map (·.store.entries) = some [] := by
    decide +kernel
  have hstaged : (staged (sampleOutboxRun tornTail).history
      (outboxMapKey sampleStaged.collection sampleStaged.keyHash)).isSome = true := by
    decide +kernel
  rw [hopen] at hentries
  have hnone : inst.store.entries = [] := Option.some_inj.mp hentries
  rw [← hview, OutboxStore.view, hnone] at hstaged
  cases hstaged

lemma sampleOutbox_valid : sampleOutbox.Valid := ⟨by decide, Or.inl rfl⟩

/-- A first `Put`, which meets the condition. -/
theorem outbox_reload_sample :
    Reloads sampleCrypto sampleOutbox
        (sampleOutboxRun [.openStore {}, .put {} 5 sampleStaged none]) ∧
      staged (sampleOutboxRun [.openStore {}, .put {} 5 sampleStaged none]).history
        (outboxMapKey sampleStaged.collection sampleStaged.keyHash) =
          some { sampleStaged with createdMs := 5 } := by
  have hsafe : Runs.Guarded (step sampleCrypto sampleOutbox)
      (Safe sampleCrypto sampleOutbox) {} [.openStore {}, .put {} 5 sampleStaged none] := by
    refine ⟨trivial, fun inst _ _ => ⟨by rfl, ?_, fun _ => by rfl⟩, trivial⟩
    change _ ≤ _
    decide +kernel
  exact ⟨(outbox_reload sampleOutbox_valid _ hsafe).1, by decide +kernel⟩

end OutboxProcess

end DeSentry
