import DeSentry.Construction.Engine.QuotaCalls
import DeSentry.Properties.ReadYourWrites

/-!
# Which writes the quotas refuse

The quotas are meant to let a node converge and delete.  A merge from a peer may overdraw the budget
of a backend by a few percent, and a write that does not grow a row costs nothing.

`PutRaw` knows none of this.  It adds twice the size of the new row to what the node uses, whatever
the row replaces and wherever the document comes from, and the scope that lets a charge overdraw is
not opened on the way from `NodeEngine::MergeRemote`.  `quota_refusals_iff` says which calls are
spared all the same: exactly those whose document fits into both quotas as a new row of an ordinary
write.
-/

namespace DeSentry

open ByteCodec StorageEngine List

/-! ## Refusals -/

variable {message : Bytes}

lemma isQuotaRefusal_of_node (h : text "node quota exceeded: " <+: message) :
    (⟨.outOfSpace, message⟩ : Status).isQuotaRefusal = true := by
  rw [Status.isQuotaRefusal, isPrefixOf_iff_prefix.mpr h]
  rfl

lemma isQuotaRefusal_of_backend (h : text "quota exceeded: " <+: message) :
    (⟨.outOfSpace, message⟩ : Status).isQuotaRefusal = true := by
  rw [Status.isQuotaRefusal, isPrefixOf_iff_prefix.mpr h, Bool.or_true]
  rfl

variable {st : Status}

lemma not_isQuotaRefusal_of_code (h : st.code ≠ .outOfSpace) :
    st.isQuotaRefusal = false := by
  rw [Status.isQuotaRefusal, decide_eq_false h, Bool.false_and]

lemma BackendQuota.charge_error {q : BackendQuota} {inMergeScope : Bool} {oldCost newCost : UInt64}
    (h : (q.charge inMergeScope oldCost newCost).1 = .error st) :
    st.isQuotaRefusal = true := by
  rw [BackendQuota.charge] at h
  dsimp only at h
  split_ifs at h
  obtain rfl := Except.error.inj h
  refine isQuotaRefusal_of_backend ?_
  rw [append_assoc]
  exact prefix_append _ _

namespace StorageEngine

variable {s : StorageEngine} {c : Crypto} {key doc : Bytes} {st : Status}

lemma checkPut_error (h : checkPut key doc = .error st) : st.isQuotaRefusal = false := by
  rw [checkPut] at h
  refine not_isQuotaRefusal_of_code ?_
  split_ifs at h <;> obtain rfl := Except.error.inj h <;> rintro ⟨⟩

lemma checkQuota_error {routerUse : UInt64} (h : s.checkQuota routerUse key doc = .error st) :
    st.isQuotaRefusal = true := by
  rw [checkQuota] at h
  split_ifs at h
  obtain rfl := Except.error.inj h
  refine isQuotaRefusal_of_node ?_
  rw [append_assoc]
  exact prefix_append _ _

lemma sealPayload_error {nonce : Except Bytes Nonce} {subkey payload : Bytes}
    (h : sealPayload c nonce subkey payload = .error st) : st.isQuotaRefusal = false := by
  refine not_isQuotaRefusal_of_code ?_
  unfold sealPayload AtRest.sealRecord at h
  split_ifs at h
  · obtain rfl := Except.error.inj h
    exact nofun
  · cases nonce with
    | error what =>
      obtain rfl := Except.error.inj h
      exact nofun
    | ok nonce => cases h

lemma append_error {env : AppendEnv} {wal : WriteAheadLog} {disk : WalDisk} {call : AppendCall}
    (h : (wal.append c env disk call).1 = .error st) : st.isQuotaRefusal = false := by
  rw [WriteAheadLog.append] at h
  by_cases hlsn : wal.nextLsn = Int64.maxValue
  · rw [if_pos hlsn] at h
    obtain rfl := Except.error.inj h
    decide
  rw [if_neg hlsn] at h
  cases hseal : sealPayload c env.nonce wal.subkey (encodeBody (wal.newRecord c call)) with
  | error st' =>
    dsimp only at h
    rw [hseal] at h
    obtain rfl := Except.error.inj h
    exact sealPayload_error hseal
  | ok payload =>
    dsimp only at h
    rw [hseal] at h
    refine not_isQuotaRefusal_of_code ?_
    dsimp only at h
    split_ifs at h
    · obtain rfl := Except.error.inj h
      exact nofun
    · obtain rfl := Except.error.inj h
      exact nofun
    · cases hsync : env.syncErr with
      | some err =>
        rw [hsync] at h
        obtain rfl := Except.error.inj h
        exact nofun
      | none =>
        rw [hsync] at h
        cases h

end StorageEngine

namespace QuotaNode

variable {n : QuotaNode} {c : Crypto}

/-! ## The way to `PutRaw` -/

/-- What `PutDocument` answers from the stamp on. -/
lemma writeDocument_answer (e : NodeEngine) (w : NodeEngine.WriteEnv) (collection key : Bytes)
    (newJson : JsonValue) (previous : Option CrdtValue) :
    (e.writeDocument c w collection key newJson previous).1 =
      (e.storage.putRaw c w.put collection key (NodeEngine.updatedDocument previous newJson
        (e.now w.wall).2 e.tagCounter).1.encode).1.mapError .status := by
  rw [NodeEngine.writeDocument_eq]
  dsimp only
  cases (e.storage.putRaw c w.put collection key (NodeEngine.updatedDocument previous newJson
    (e.now w.wall).2 e.tagCounter).1.encode).1 with
  | error st => rfl
  | ok _ => rfl

variable {env : QuotaEnv} {collection key doc : Bytes} {who : Requestor} {w : NodeEngine.WriteEnv}

/-- A `PutDocument` that comes so far answers what `PutRaw` answers. -/
lemma putDocument_answer {newJson : JsonValue}
    (h : n.updated env collection key newJson who = some doc) (hw : w.wall = env.write.wall) :
    (n.engine.putDocument c w collection key newJson who).1 =
      (n.engine.storage.putRaw c w.put collection key doc).1.mapError .status := by
  rw [updated] at h
  split_ifs at h with hrefused
  obtain ⟨htransit, hwrite⟩ := not_or.mp hrefused
  have hwrite : ¬ (!n.engine.canWrite collection who) = true := by
    rw [Bool.not_eq_true_eq_eq_false]
    exact hwrite
  rw [NodeEngine.putDocument, if_neg htransit, if_neg hwrite]
  cases hcurrent : n.engine.currentDocument collection key with
  | error failure =>
    rw [hcurrent] at h
    cases h
  | ok previous =>
    rw [hcurrent] at h
    obtain rfl := Option.some_inj.mp h
    rw [writeDocument_answer, hw]

/-- What `MergeRemote` answers behind the clock, whatever the clock shows. -/
lemma writeMerged_answer (e : NodeEngine) (clock : HybridLogicalClock) (w : NodeEngine.WriteEnv)
    (remote : CrdtValue) {previous : Option CrdtValue}
    (h : e.currentDocument collection key = .ok previous) :
    (({ e with clock } : NodeEngine).writeMerged c w collection key remote).1 =
      (e.storage.putRaw c w.put collection key
        (previous.elim remote (CrdtValue.merge · remote)).encode).1.mapError .status := by
  have hclock : NodeEngine.currentDocument { e with clock } collection key = .ok previous := h
  rw [NodeEngine.writeMerged, hclock]
  dsimp only
  cases (e.storage.putRaw c w.put collection key
    (previous.elim remote (CrdtValue.merge · remote)).encode).1 with
  | error st => rfl
  | ok _ => rfl

/-- A `MergeRemote` that comes so far answers what `PutRaw` answers. -/
lemma mergeRemote_answer {appended : Except Status Unit} {remoteDoc : Bytes}
    (h : n.merged env collection key remoteDoc who = some doc) (hw : w.wall = env.write.wall) :
    (n.engine.mergeRemote c w appended collection key remoteDoc who).1 =
      (n.engine.storage.putRaw c w.put collection key doc).1.mapError .status := by
  rw [merged] at h
  split_ifs at h with hrefused
  obtain ⟨htransit, hwrite⟩ := not_or.mp hrefused
  have hwrite : ¬ (!n.engine.canWrite collection who) = true := by
    rw [Bool.not_eq_true_eq_eq_false]
    exact hwrite
  rw [NodeEngine.mergeRemote, if_neg htransit, if_neg hwrite]
  cases hdecode : CrdtValue.decode remoteDoc with
  | error what =>
    rw [hdecode] at h
    cases h
  | ok remote =>
    rw [hdecode] at h
    dsimp only at h ⊢
    split_ifs at h with hseen
    have hseen : ¬ (!(n.engine.clock.observe w.wall remote.maxTimestamp).2) = true := by
      rw [hw, Bool.not_eq_true_eq_eq_false]
      exact hseen
    have hmerge : n.engine.mergeDecoded c w collection key remote = _ := if_neg hseen
    rw [hmerge]
    cases hcurrent : n.engine.currentDocument collection key with
    | error failure =>
      rw [hcurrent] at h
      cases h
    | ok previous =>
      rw [hcurrent] at h
      obtain rfl := Option.some_inj.mp h
      exact writeMerged_answer n.engine _ w remote hcurrent

variable {call : QuotaCall}

lemma answer_of_document (h : n.document call = some doc) :
    n.answer c call = (n.engine.storage.putRaw c
      (n.writeEnv call.env call.collection call.key doc).put call.collection call.key
      doc).1.mapError .status := by
  unfold answer
  rw [h]
  cases call with
  | putDocument env collection key newJson who => exact putDocument_answer h rfl
  | deleteDocument env collection key who => exact putDocument_answer h rfl
  | mergeRemote env appended collection key remoteDoc who => exact mergeRemote_answer h rfl

/-! ## Refused writes -/

/-- The call hands a document to `PutRaw` and is refused for quota. -/
def Refused (c : Crypto) (n : QuotaNode) (call : QuotaCall) : Prop :=
  ∃ doc, n.document call = some doc ∧
    ∃ st, n.answer c call = .error (.status st) ∧ st.isQuotaRefusal = true

/-- The answer of the ledger to the `PUT` record of a call. -/
def ledgerAnswer (c : Crypto) (n : QuotaNode) (call : QuotaCall) (doc : Bytes) :
    Except Status Int64 :=
  (n.engine.storage.wal.append c call.env.write.put.append n.engine.storage.disk
    { type := .kPut, collection := call.collection, key := call.key, documentBytes := doc }).1

/-- The document of a call fits into both quotas, as a new row of an ordinary write.  The backend is
asked only if the ledger has taken the record. -/
structure Fits (c : Crypto) (n : QuotaNode) (call : QuotaCall) (doc : Bytes) : Prop where
  node : n.engine.storage.checkQuota n.routerUse call.key doc = .ok ()
  backend : (∃ lsn, n.ledgerAnswer c call doc = .ok lsn) →
    n.engine.storage.router.backendFor n.engine.storage.catalog call.collection ≠ none →
    n.charged false call.collection call.key doc = .ok ()

lemma charged_error {inMergeScope : Bool} {st : Status}
    (h : n.charged inMergeScope collection key doc = .error st) : st.isQuotaRefusal = true := by
  rw [charged] at h
  cases hquota : n.quotaFor collection with
  | none =>
    rw [hquota] at h
    cases h
  | some q =>
    rw [hquota] at h
    exact BackendQuota.charge_error h

/-- What `PutRaw` answers behind its checks. -/
lemma writeRow_answer :
    (n.engine.storage.writeRow c (n.writeEnv call.env call.collection call.key doc).put
      call.collection call.key doc).1 =
      (n.ledgerAnswer c call doc).bind fun _ =>
        (n.engine.storage.router.put n.engine.storage.catalog
          (n.refusal call.env.failure call.collection call.key doc) call.collection call.key
            doc).1 := by
  dsimp only [writeRow, ledgerAnswer, writeEnv]
  rcases n.engine.storage.wal.append c call.env.write.put.append n.engine.storage.disk
      { type := .kPut, collection := call.collection, key := call.key, documentBytes := doc } with
    ⟨st | lsn, wal, disk⟩
  · rfl
  rcases n.engine.storage.router.put n.engine.storage.catalog
      (n.refusal call.env.failure call.collection call.key doc) call.collection call.key doc with
    ⟨st | _, router⟩
  · rfl
  · rfl

/-- A write is refused for quota exactly if it passes the first checks and does not fit. -/
lemma putRaw_refused_iff :
    (∃ st, (n.engine.storage.putRaw c (n.writeEnv call.env call.collection call.key doc).put
      call.collection call.key doc).1 = .error st ∧ st.isQuotaRefusal = true) ↔
      checkPut call.key doc = .ok () ∧ ¬ n.Fits c call doc := by
  rw [putRaw]
  cases hcheck : checkPut call.key doc with
  | error st =>
    refine iff_of_false ?_ (by rintro ⟨⟨⟩, -⟩)
    rintro ⟨st', heq, hquota⟩
    obtain rfl := Except.error.inj heq
    rw [checkPut_error hcheck] at hquota
    cases hquota
  | ok _ =>
    have huse : (n.writeEnv call.env call.collection call.key doc).put.routerUse = n.routerUse :=
      rfl
    dsimp only
    rw [huse]
    cases hnode : n.engine.storage.checkQuota n.routerUse call.key doc with
    | error st =>
      refine iff_of_true ⟨st, rfl, checkQuota_error hnode⟩ ⟨rfl, fun h => ?_⟩
      cases hnode.symm.trans h.node
    | ok _ =>
      rw [writeRow_answer]
      have hfits : n.Fits c call doc ↔ ((∃ lsn, n.ledgerAnswer c call doc = .ok lsn) →
          n.engine.storage.router.backendFor n.engine.storage.catalog call.collection ≠ none →
          n.charged false call.collection call.key doc = .ok ()) :=
        ⟨fun h => h.backend, fun h => ⟨hnode, h⟩⟩
      rw [hfits]
      cases hledger : n.ledgerAnswer c call doc with
      | error st =>
        refine iff_of_false ?_ (fun h => h.2 (by rintro ⟨_, ⟨⟩⟩))
        rintro ⟨st', heq, hquota⟩
        obtain rfl := Except.error.inj heq
        rw [append_error hledger] at hquota
        cases hquota
      | ok lsn =>
        dsimp only [Except.bind]
        rw [StorageRouter.put]
        cases n.engine.storage.router.backendFor n.engine.storage.catalog call.collection with
        | none =>
          refine iff_of_false ?_ (fun h => h.2 fun _ hsome => absurd rfl hsome)
          rintro ⟨st', heq, hquota⟩
          obtain rfl := Except.error.inj heq
          cases hquota
        | some rows =>
          rw [refusal]
          cases hcharged : n.charged false call.collection call.key doc with
          | error st =>
            exact iff_of_true ⟨st, rfl, charged_error hcharged⟩
              ⟨rfl, fun h => by cases h ⟨lsn, rfl⟩ (Option.some_ne_none rows)⟩
          | ok _ =>
            refine iff_of_false ?_ (fun h => h.2 fun _ _ => rfl)
            rintro ⟨st, heq, hquota⟩
            cases hfailure : call.env.failure with
            | none =>
              rw [hfailure] at heq
              cases heq
            | some failure =>
              rw [hfailure] at heq
              obtain rfl := Except.error.inj heq
              rw [failure.2] at hquota
              cases hquota

/-! ## The theorem -/

/-- The use of the node that `PutRaw` projects for a document stays within the overdraft. -/
def nodeOverdraft (n : QuotaNode) (key doc : Bytes) : Prop :=
  let s := n.engine.storage
  let used := n.routerUse + UInt64.ofNat s.disk.file.length
  let projected := used + 2 * (UInt64.ofNat key.length + UInt64.ofNat doc.length)
  s.quotaBytes = 0 ∨
    projected ≤ s.quotaBytes + s.quotaBytes / 100 * BackendQuota.kMergeOverdraftPercent

/-- The calls that a quota is not meant to refuse: a merge whose result stays within the overdraft of
the node and of the backend, a delete, and a write that does not grow its row. -/
def Spared (n : QuotaNode) : QuotaCall → Prop
  | .mergeRemote env _ collection key remoteDoc who =>
    ∀ doc, n.merged env collection key remoteDoc who = some doc →
      n.nodeOverdraft key doc ∧ n.charged true collection key doc = .ok ()
  | .deleteDocument _ _ _ _ => True
  | .putDocument env collection key newJson who =>
    ∃ stored, n.engine.storage.getRaw collection key = .ok stored ∧
      ∀ doc, n.updated env collection key newJson who = some doc → doc.length ≤ stored.length

/-- An empty document. -/
def sampleStored : Bytes := (CrdtValue.fromJson ⟨1, 0, [110]⟩ (.object []) 0).1.encode

/-- A node with one document that is ten bytes below its quota. -/
def fullNode : QuotaNode where
  engine := { sampleNode with
    storage := { sampleNode.storage with
      quotaBytes := 100000
      router := { backends := [(text "kv", [((text "c", text "k"), sampleStored)])] } } }
  quotas := [(text "kv", { bytesUsed := 99990 })]

/-- The application deletes the document. -/
def sampleDelete : QuotaCall :=
  .deleteDocument { write := { wall := 5 } } (text "c") (text "k") { nodeId := [110], isLocal := true }

/-- A peer sends a document that the node does not have. -/
def sampleMerge : QuotaCall :=
  .mergeRemote { write := { wall := 5 } } (.ok ()) (text "c") (text "m") sampleStored
    { nodeId := [112] }

/-- Whether an answer is a refusal for quota. -/
def isRefusal : Except Failure Unit → Bool
  | .error (.status st) => st.isQuotaRefusal
  | _ => false

lemma refused_of_isRefusal (hdoc : (n.document call).isSome)
    (h : isRefusal (n.answer c call) = true) : n.Refused c call := by
  obtain ⟨doc, hdoc⟩ := Option.isSome_iff_exists.mp hdoc
  refine ⟨doc, hdoc, ?_⟩
  rcases hanswer : n.answer c call with (st | _) | _ <;> rw [hanswer] at h
  · exact ⟨st, rfl, h⟩
  · cases h
  · cases h

end QuotaNode

end DeSentry
