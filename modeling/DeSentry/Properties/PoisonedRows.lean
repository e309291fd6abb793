import DeSentry.Properties.Replica

/-!
# Rows that do not decode

The decoder stops at a depth of `kMaxDecodeDepth`, the encoder and `PutRaw` do not look at the depth.
A document decodes exactly if it is nested no deeper than the cap (`decodes_iff_depth`), and merging
does not nest deeper than its arguments, so only a `PutDocument` can store a row that does not decode.
Such a row stays for good: every call that would replace it decodes it first.

So the rows of a node stay decodable along a run exactly if every accepted `PutDocument` writes a
document within the cap (`rows_stay_decodable_iff`).  A page has room for a document that is not: 65
objects with empty names inside each other, stamped by a node with an id of 32 bytes, take 4080 bytes
(`deep_document_poisons`).
-/

namespace DeSentry

open ByteCodec KeyedList Runs StorageEngine List

/-! ## The depth of what decodes -/

namespace CrdtValue

variable {child child' : ByteReader CrdtValue}

lemma widens_readPayload (h : Widens child child') (ts : HLCTimestamp) (d : Bool) (wk : UInt8) :
    Widens (readPayload child ts d wk) (readPayload child' ts d wk) := by
  unfold readPayload
  split
  · exact Widens.refl _
  · exact Widens.refl _
  · exact Widens.refl _
  · exact Widens.refl _
  · refine (Widens.refl _).bind fun n => (Widens.many ?_ _).bind fun _ => Widens.refl _
    exact (Widens.refl _).bind fun _ => (Widens.refl _).bind fun _ => h.bind fun _ => Widens.refl _
  · refine (Widens.refl _).bind fun n => (Widens.many ?_ _).bind fun _ => Widens.refl _
    exact (Widens.refl _).bind fun _ => h.bind fun _ => Widens.refl _
  · exact Widens.refl _

lemma widens_readNode (h : Widens child child') :
    Widens (readNode child) (readNode child') :=
  (Widens.refl _).bind fun wk => (Widens.refl _).bind fun d => (Widens.refl _).bind fun _ =>
    widens_readPayload h _ (d != 0) wk

variable {fuel : ℕ} {bytes : Bytes} {v : CrdtValue}

/-- A deeper cap decodes the same. -/
lemma decodeAt_succ (h : decodeAt fuel bytes = .ok v) :
    decodeAt (fuel + 1) bytes = .ok v := by
  induction fuel generalizing bytes v with
  | zero => cases h
  | succ fuel ih =>
    have hread := widens_readNode ((Widens.refl ByteReader.bytes).bind fun body =>
      widens_lift (x := decodeAt fuel body) fun w hw => ih hw)
    rw [decodeAt] at h ⊢
    obtain ⟨r, hrun, hv⟩ := bind_eq_ok.mp h
    exact bind_eq_ok.mpr ⟨r, hread bytes r hrun, hv⟩

lemma decodeAt_mono {fuel' : ℕ} (hle : fuel ≤ fuel') (h : decodeAt fuel bytes = .ok v) :
    decodeAt fuel' bytes = .ok v := by
  induction hle with
  | refl => exact h
  | step _ ih => exact decodeAt_succ ih

/-- **What decodes.**  The encoding of a document decodes exactly if the document is nested no
deeper than the cap. -/
theorem decodes_iff_depth (hlen : v.encode.length < 2 ^ 32) :
    (∃ w, decode v.encode = .ok w) ↔ v.depth ≤ kMaxDecodeDepth + 1 := by
  refine ⟨fun ⟨w, hw⟩ => ?_, fun hdepth => ⟨_, decodeAt_encode hdepth hlen⟩⟩
  -- With fuel for both, `v` decodes to its canonical form, so `w` is that.
  have hboth := decodeAt_mono (le_max_left (kMaxDecodeDepth + 1) v.depth) hw
  rw [decodeAt_encode (le_max_right _ _) hlen] at hboth
  rw [← depth_canon, Except.ok.inj hboth]
  exact depth_le_of_decodeAt hw

end CrdtValue

/-! ## Calls that write -/

namespace NodeEngine

open CrdtValue

/-- The calls that write documents. -/
inductive WriteCall where
  | put (env : WriteEnv) (collection key : Bytes) (newJson : JsonValue) (who : Requestor)
  | merge (env : WriteEnv) (appended : Except Status Unit) (collection key remoteDoc : Bytes)
      (who : Requestor)

/-- One call, and its answer. -/
def writeStep (c : Crypto) (e : NodeEngine) : WriteCall → NodeEngine × Except Failure Unit
  | .put env collection key newJson who => (e.putDocument c env collection key newJson who).swap
  | .merge env appended collection key remoteDoc who =>
    (e.mergeRemote c env appended collection key remoteDoc who).swap

/-- Every stored row decodes. -/
def Decodable (e : NodeEngine) : Prop :=
  ∀ collection key bytes, e.storage.getRaw collection key = .ok bytes → ∃ v, decode bytes = .ok v

/-- A `PutDocument` that is accepted writes a document within the depth of the decoder. -/
def Shallow (c : Crypto) (e : NodeEngine) : WriteCall → Prop
  | .put env collection key newJson who =>
    ∀ previous, e.currentDocument collection key = .ok previous →
      (e.putDocument c env collection key newJson who).1 = .ok () →
      (updatedDocument previous newJson (e.now env.wall).2 e.tagCounter).1.depth ≤
        kMaxDecodeDepth + 1
  | .merge .. => True

variable {c : Crypto} {e : NodeEngine} {env : WriteEnv} {collection key : Bytes} {j : JsonValue}
  {who : Requestor}

/-- JSON within the depth of the decoder is written within it. -/
lemma shallow_of_depth (h : j.depth ≤ kMaxDecodeDepth + 1) :
    Shallow c e (.put env collection key j who) :=
  fun _ hcur _ => depth_updatedDocument_le (depth_currentDocument hcur) h

/-- **What `PutDocument` does** to the rows: it writes the updated document, or nothing. -/
lemma putDocument_cases (e : NodeEngine) (c : Crypto) (env : WriteEnv) (collection key : Bytes)
    (j : JsonValue) (who : Requestor) :
    (∃ previous, (e.putDocument c env collection key j who).1 = .ok () ∧
        e.currentDocument collection key = .ok previous ∧
        (updatedDocument previous j (e.now env.wall).2 e.tagCounter).1.encode.length ≤
          kMaxDocBytes ∧
        ∀ collection' key', (e.putDocument c env collection key j who).2.storage.getRaw
          collection' key' = if (collection', key') = (collection, key) then
            .ok (updatedDocument previous j (e.now env.wall).2 e.tagCounter).1.encode
          else e.storage.getRaw collection' key') ∨
      (e.putDocument c env collection key j who).1 ≠ .ok () ∧
        ∀ collection' key', (e.putDocument c env collection key j who).2.storage.getRaw
          collection' key' = e.storage.getRaw collection' key' := by
  rcases hput : e.putDocument c env collection key j who with ⟨failure | _, e'⟩
  · refine Or.inr ⟨nofun, ?_⟩
    unfold putDocument at hput
    split_ifs at hput with htransit hwrite
    · obtain rfl := (Prod.mk.inj hput).2
      exact fun _ _ => rfl
    · obtain rfl := (Prod.mk.inj hput).2
      exact fun _ _ => rfl
    · cases hcur : e.currentDocument collection key with
      | error failure =>
        rw [hcur] at hput
        obtain rfl := (Prod.mk.inj hput).2
        exact fun _ _ => rfl
      | ok previous =>
        rw [hcur] at hput
        change e.writeDocument c env collection key j previous = _ at hput
        rw [writeDocument_eq] at hput
        dsimp only at hput
        rcases hraw : e.storage.putRaw c env.put collection key
            (updatedDocument previous j (e.now env.wall).2 e.tagCounter).1.encode with
          ⟨st | _, storage⟩
        · rw [hraw] at hput
          obtain rfl := (Prod.mk.inj hput).2
          exact getRaw_putRaw_of_error hraw
        · rw [hraw] at hput
          cases hput
  · obtain ⟨previous, hcur, hraw, -⟩ := putDocument_eq_ok hput
    obtain ⟨hcheck, -⟩ := putRaw_eq_ok hraw
    exact Or.inl ⟨previous, rfl, hcur, length_of_checkPut hcheck,
      getRaw_putRaw hraw⟩

variable {v : CrdtValue}

/-- Bytes that decode, of a row that is looked up. -/
lemma exists_decode_of_currentDocument (h : e.currentDocument collection key = .ok (some v)) :
    ∃ bytes, e.storage.getRaw collection key = .ok bytes ∧ decode bytes = .ok v := by
  unfold currentDocument at h
  cases hget : e.storage.getRaw collection key with
  | error st =>
    rw [hget] at h
    dsimp only at h
    split_ifs at h
    cases h
  | ok bytes =>
    rw [hget] at h
    dsimp only at h
    cases hdecode : decode bytes with
    | error what =>
      rw [hdecode] at h
      cases h
    | ok w =>
      rw [hdecode] at h
      obtain rfl := Option.some.inj (Except.ok.inj h)
      exact ⟨bytes, rfl, hdecode⟩

variable {bytes : Bytes}

/-- A row that does not decode makes every call on its document throw. -/
lemma currentDocument_of_undecodable (hrow : e.storage.getRaw collection key = .ok bytes)
    (hbytes : ∀ v, decode bytes ≠ .ok v) :
    e.currentDocument collection key = .error .thrown := by
  unfold currentDocument
  rw [hrow]
  dsimp only
  cases hdecode : decode bytes with
  | error what => rfl
  | ok v => exact absurd hdecode (hbytes v)

/-- The document that a call writes is within the depth. -/
lemma depth_merged {remote : CrdtValue} {previous : Option CrdtValue} {n : ℕ}
    (hremote : remote.depth ≤ n) (hprev : ∀ v ∈ previous, v.depth ≤ n) :
    (previous.elim remote (CrdtValue.merge · remote)).depth ≤ n := by
  cases previous with
  | none => exact hremote
  | some v => exact depth_merge_le (hprev v rfl) hremote

/-- A new row that decodes exactly if its document is within the depth, and the others as they
were. -/
lemma decodable_set {e e' : NodeEngine} (h : e.Decodable) (hlen : v.encode.length ≤ kMaxDocBytes)
    (hrows : ∀ collection' key', e'.storage.getRaw collection' key' = if (collection', key') =
      (collection, key) then .ok v.encode else e.storage.getRaw collection' key') :
    e'.Decodable ↔ v.depth ≤ kMaxDecodeDepth + 1 := by
  have hlen' : v.encode.length < 2 ^ 32 := by
    rw [kMaxDocBytes] at hlen
    omega
  rw [← decodes_iff_depth hlen']
  constructor
  · intro h'
    exact h' collection key v.encode (by rw [hrows, if_pos rfl])
  · intro hv collection' key' bytes hrow
    rw [hrows] at hrow
    split_ifs at hrow with heq
    · obtain rfl := Except.ok.inj hrow
      exact hv
    · exact h collection' key' bytes hrow

/-- Envelopes are no rows. -/
lemma storage_mergeRemote_transit (appended : Except Status Unit) (key remoteDoc : Bytes) :
    (e.mergeRemote c env appended kTransitCollection key remoteDoc who).2.storage = e.storage := by
  unfold mergeRemote
  rw [if_pos rfl]
  split_ifs
  · rfl
  · cases TransitEnvelope.decode remoteDoc <;> rfl

/-- **One call.**  It keeps the rows decodable exactly if it is shallow. -/
lemma decodable_writeStep (h : e.Decodable) (call : WriteCall) :
    (writeStep c e call).1.Decodable ↔ Shallow c e call := by
  cases call with
  | put env collection key j who =>
    change (e.putDocument c env collection key j who).2.Decodable ↔ _
    rcases e.putDocument_cases c env collection key j who with
      ⟨previous, hok, hcur, hlen, hrows⟩ | ⟨hrefused, hrows⟩
    · rw [decodable_set h hlen hrows]
      refine ⟨fun hdepth previous' hcur' _ => ?_, fun hshallow => hshallow previous hcur hok⟩
      obtain rfl := Except.ok.inj (hcur.symm.trans hcur')
      exact hdepth
    · refine iff_of_true (fun collection' key' bytes hrow => ?_) fun _ _ hok => absurd hok hrefused
      rw [hrows] at hrow
      exact h collection' key' bytes hrow
  | merge env appended collection key remoteDoc who =>
    change (e.mergeRemote c env appended collection key remoteDoc who).2.Decodable ↔ True
    refine iff_true_intro ?_
    by_cases htransit : collection = kTransitCollection
    · subst htransit
      unfold Decodable
      rw [storage_mergeRemote_transit]
      exact h
    · rcases mergeRemote_cases e c env appended collection key remoteDoc who htransit with
        ⟨remote, -, hdecode, previous, hcur, hlen, hrows, -⟩ | ⟨-, hrows, -⟩
      · rw [decodable_set h hlen hrows]
        exact depth_merged (depth_le_of_decodeAt hdecode) (depth_currentDocument hcur)
      · intro collection' key' bytes hrow
        rw [hrows] at hrow
        exact h collection' key' bytes hrow

/-- A row that does not decode stays. -/
lemma undecodable_writeStep (hrow : e.storage.getRaw collection key = .ok bytes)
    (hbytes : ∀ v, decode bytes ≠ .ok v) (call : WriteCall) :
    (writeStep c e call).1.storage.getRaw collection key = .ok bytes := by
  have hthrown := currentDocument_of_undecodable hrow hbytes
  cases call with
  | put env collection' key' j who =>
    change (e.putDocument c env collection' key' j who).2.storage.getRaw _ _ = _
    rcases e.putDocument_cases c env collection' key' j who with
      ⟨previous, -, hcur, -, hrows⟩ | ⟨-, hrows⟩
    · rw [hrows, if_neg, hrow]
      rintro ⟨⟩
      rw [hthrown] at hcur
      cases hcur
    · rw [hrows, hrow]
  | merge env appended collection' key' remoteDoc who =>
    change (e.mergeRemote c env appended collection' key' remoteDoc who).2.storage.getRaw _ _ = _
    by_cases htransit : collection' = kTransitCollection
    · subst htransit
      rw [storage_mergeRemote_transit, hrow]
    · rcases mergeRemote_cases e c env appended collection' key' remoteDoc who htransit with
        ⟨remote, -, -, previous, hcur, -, hrows, -⟩ | ⟨-, hrows, -⟩
      · rw [hrows, if_neg, hrow]
        rintro ⟨⟩
        rw [hthrown] at hcur
        cases hcur
      · rw [hrows, hrow]

lemma not_decodable_final (h : ¬ e.Decodable) (calls : List WriteCall) :
    ¬ (final (writeStep c) e calls).Decodable := by
  simp only [Decodable, not_forall, not_exists] at h
  obtain ⟨collection, key, bytes, hrow, hbytes⟩ := h
  suffices hstays : (final (writeStep c) e calls).storage.getRaw collection key = .ok bytes by
    intro hall
    obtain ⟨v, hv⟩ := hall collection key bytes hstays
    exact hbytes v hv
  induction calls generalizing e with
  | nil => exact hrow
  | cons call calls ih => exact ih (undecodable_writeStep hrow hbytes call)

/-- A run keeps the rows decodable exactly if every call of it is shallow. -/
lemma decodable_final_iff (h : e.Decodable) (calls : List WriteCall) :
    (final (writeStep c) e calls).Decodable ↔ Guarded (writeStep c) (Shallow c) e calls := by
  induction calls generalizing e with
  | nil => exact iff_of_true h trivial
  | cons call calls ih =>
    by_cases hstep : (writeStep c e call).1.Decodable
    · exact (ih hstep).trans (and_iff_right ((decodable_writeStep h call).mp hstep)).symm
    · exact iff_of_false (not_decodable_final hstep calls)
        fun hguard => hstep ((decodable_writeStep h call).mpr hguard.1)

/-! ## Reading -/

/-- The documents of a collection can be read and written: no call throws, and a list without a
limit has every document that is there. -/
structure Serves (c : Crypto) (e : NodeEngine) : Prop where
  get : ∀ collection key who, e.getDocument collection key who ≠ .error .thrown
  put : ∀ env collection key j who,
    (e.putDocument c env collection key j who).1 ≠ .error .thrown
  delete : ∀ env collection key who, (e.deleteDocument c env collection key who).1 ≠ .error .thrown
  list : ∀ collection startKey limit who,
    e.listDocuments collection startKey limit who ≠ .error .thrown
  listed : ∀ collection key who v, e.canRead collection who = true →
    e.currentDocument collection key = .ok (some v) → v.isEmpty = false →
    ∃ out, e.listDocuments collection [] 0 who = .ok out ∧ (key, v.toJson) ∈ out

lemma getDocument_ne_thrown (h : e.Decodable) :
    e.getDocument collection key who ≠ .error .thrown := by
  unfold getDocument
  split_ifs
  · nofun
  cases hrow : e.storage.getRaw collection key with
  | error st => nofun
  | ok bytes =>
    obtain ⟨v, hv⟩ := h collection key bytes hrow
    dsimp only
    rw [hv]
    dsimp only
    split_ifs <;> nofun

lemma currentDocument_ne_thrown (h : e.Decodable) :
    e.currentDocument collection key ≠ .error .thrown := by
  unfold currentDocument
  cases hrow : e.storage.getRaw collection key with
  | error st =>
    dsimp only
    split_ifs <;> nofun
  | ok bytes =>
    obtain ⟨v, hv⟩ := h collection key bytes hrow
    dsimp only
    rw [hv]
    nofun

lemma putDocument_ne_thrown (h : e.Decodable) :
    (e.putDocument c env collection key j who).1 ≠ .error .thrown := by
  unfold putDocument
  split_ifs
  · nofun
  · nofun
  cases hcur : e.currentDocument collection key with
  | error failure =>
    dsimp only
    intro hthrown
    obtain rfl := Except.error.inj hthrown
    exact currentDocument_ne_thrown h hcur
  | ok previous =>
    dsimp only
    rw [writeDocument_eq]
    dsimp only
    cases (e.storage.putRaw c env.put collection key
      (updatedDocument previous j (e.now env.wall).2 e.tagCounter).1.encode).1 <;> nofun

lemma mem_scanFrom_iff :
    (key, bytes) ∈ e.storage.scanFrom collection [] 0 ↔
      e.storage.getRaw collection key = .ok bytes := by
  rw [← mem_scan_iff]
  refine mem_filter.trans (and_iff_left ?_)
  exact decide_eq_true (le_of_not_gt (not_lt_nil key))

variable {rows : List (Bytes × Bytes)}

/-- The loop of `ListDocuments` on rows that decode. -/
lemma listLoop_ok (h : ∀ row ∈ rows, ∃ v, decode row.2 = .ok v) (limit : UInt64) (found : ℕ) :
    ∃ out, listLoop limit found rows = .ok out ∧
      (limit = 0 → ∀ row ∈ rows, ∀ v, decode row.2 = .ok v → v.isEmpty = false →
        (row.1, v.toJson) ∈ out) := by
  induction rows generalizing found with
  | nil => exact ⟨[], rfl, nofun⟩
  | cons row rows ih =>
    obtain ⟨key, bytes⟩ := row
    obtain ⟨⟨v, hv⟩, hrows⟩ := forall_mem_cons.mp h
    dsimp only at hv
    rw [listLoop, hv]
    dsimp only
    split_ifs with hempty hfull
    · obtain ⟨out, hout, hmem⟩ := ih hrows found
      refine ⟨out, hout, fun hlimit => forall_mem_cons.mpr ⟨fun w hw hne => ?_, hmem hlimit⟩⟩
      obtain rfl := Except.ok.inj (hv.symm.trans hw)
      rw [hempty] at hne
      cases hne
    · exact ⟨_, rfl, fun hlimit => absurd hlimit hfull.1⟩
    · obtain ⟨out, hout, hmem⟩ := ih hrows (found + 1)
      refine ⟨(key, v.toJson) :: out, by rw [hout]; rfl,
        fun hlimit => forall_mem_cons.mpr ⟨fun w hw _ => ?_, fun row hrow w hw hne => ?_⟩⟩
      · obtain rfl := Except.ok.inj (hv.symm.trans hw)
        exact mem_cons_self
      · exact mem_cons_of_mem _ (hmem hlimit row hrow w hw hne)

/-- The loop of `ListDocuments` without a limit on rows one of which does not decode. -/
lemma listLoop_thrown {row : Bytes × Bytes} (hmem : row ∈ rows) (hbytes : ∀ v, decode row.2 ≠ .ok v)
    (found : ℕ) : listLoop 0 found rows = .error .thrown := by
  induction rows generalizing found with
  | nil => cases hmem
  | cons row' rows ih =>
    obtain ⟨key, bytes⟩ := row'
    rw [listLoop]
    cases hdecode : decode bytes with
    | error what => rfl
    | ok v =>
      have hrest : row ∈ rows := by
        rcases mem_cons.mp hmem with rfl | hrest
        · exact absurd hdecode (hbytes v)
        · exact hrest
      dsimp only
      rw [if_neg (fun h : (0 : UInt64) ≠ 0 ∧ _ => h.1 rfl), ih hrest, ih hrest]
      split_ifs <;> rfl

/-- One row that does not decode, and the whole collection cannot be listed. -/
lemma listDocuments_thrown (hread : e.canRead collection who = true)
    (hrow : e.storage.getRaw collection key = .ok bytes) (hbytes : ∀ v, decode bytes ≠ .ok v) :
    e.listDocuments collection [] 0 who = .error .thrown := by
  unfold listDocuments
  rw [if_neg (by rw [hread]; decide)]
  exact listLoop_thrown (mem_scanFrom_iff.mpr hrow) hbytes 0

lemma getDocument_thrown (hread : e.canRead collection who = true)
    (hrow : e.storage.getRaw collection key = .ok bytes) (hbytes : ∀ v, decode bytes ≠ .ok v) :
    e.getDocument collection key who = .error .thrown := by
  unfold getDocument
  rw [if_neg (by rw [hread]; decide), hrow]
  dsimp only
  cases hdecode : decode bytes with
  | error what => rfl
  | ok v => exact absurd hdecode (hbytes v)

/-- A node whose rows decode serves its documents. -/
lemma Decodable.serves (h : e.Decodable) : Serves c e := by
  have hscan : ∀ collection startKey limit, ∀ row ∈ e.storage.scanFrom collection startKey limit,
      ∃ v, decode row.2 = .ok v := by
    intro collection startKey limit row hrow
    have hmem : row ∈ e.storage.scan collection := by
      unfold scanFrom at hrow
      dsimp only at hrow
      split_ifs at hrow
      · exact (mem_filter.mp hrow).1
      · exact (mem_filter.mp (mem_of_mem_take hrow)).1
    exact h collection row.1 row.2 (mem_scan_iff.mp hmem)
  refine ⟨fun _ _ _ => getDocument_ne_thrown h, fun _ _ _ _ _ => putDocument_ne_thrown h,
    fun _ _ _ _ => putDocument_ne_thrown h, fun collection startKey limit who => ?_,
    fun collection key who v hread hcur hne => ?_⟩
  · unfold listDocuments
    by_cases hread : (!e.canRead collection who) = true
    · rw [if_pos hread]
      nofun
    · rw [if_neg hread]
      obtain ⟨out, hout, -⟩ := listLoop_ok
        (hscan collection startKey (if limit = 0 then 0 else limit * 2 + 16)) limit 0
      dsimp only
      rw [hout]
      nofun
  · obtain ⟨bytes, hrow, hdecode⟩ := exists_decode_of_currentDocument hcur
    obtain ⟨out, hout, hmem⟩ := listLoop_ok (hscan collection [] 0) 0 0
    refine ⟨out, ?_, hmem rfl (key, bytes) (mem_scanFrom_iff.mpr hrow) v hdecode hne⟩
    unfold listDocuments
    rw [if_neg (by rw [hread]; decide)]
    exact hout

/-- **No accepted write poisons a collection**, exactly if no accepted `PutDocument` writes a
document that is nested deeper than the decoder allows.  `MergeRemote` never does.  The run starts
from a node whose rows decode. -/
theorem rows_stay_decodable_iff (c : Crypto) (e : NodeEngine) (h : e.Decodable)
    (calls : List WriteCall) :
    (final (writeStep c) e calls).Decodable ∧ Serves c (final (writeStep c) e calls) ↔
      Guarded (writeStep c) (Shallow c) e calls := by
  rw [← decodable_final_iff h]
  exact ⟨And.left, fun hall => ⟨hall, hall.serves⟩⟩

/-- Objects with an empty name inside each other. -/
def nested : ℕ → JsonValue
  | 0 => .scalar .null
  | n + 1 => .object [([], nested n)]

/-- A new node with an id of the usual length. -/
def longNamedNode : NodeEngine :=
  { sampleNode with nodeId := List.replicate 32 97, clock := { nodeId := List.replicate 32 97 } }

lemma depth_nested (n : ℕ) : (nested n).depth = n + 1 := by
  induction n with
  | zero => rfl
  | succ n ih => simp [nested, JsonValue.depth, JsonValue.depthFields, ih]

/-- The node after a plain document. -/
def plainNode : NodeEngine :=
  (longNamedNode.putDocument sampleCrypto { wall := 5000 } (text "c") (text "a") (.object [])
    ⟨longNamedNode.nodeId, true⟩).2

/-- After a new document that is nested too deep neither it nor a list can be read. -/
lemma thrown_after_putDocument
    (hok : (e.putDocument c env collection key j ⟨e.nodeId, true⟩).1 = .ok ())
    (hnew : e.currentDocument collection key = .ok none) (hdeep : kMaxDecodeDepth + 1 < j.depth) :
    let e' := (e.putDocument c env collection key j ⟨e.nodeId, true⟩).2
    e'.getDocument collection key ⟨e.nodeId, true⟩ = .error .thrown ∧
      e'.listDocuments collection [] 0 ⟨e.nodeId, true⟩ = .error .thrown := by
  intro e'
  obtain ⟨-, -, -, hid⟩ := putDocument_eq_ok
    (Prod.ext hok rfl : e.putDocument c env collection key j ⟨e.nodeId, true⟩ = (.ok (), e'))
  have hread : e'.canRead collection ⟨e.nodeId, true⟩ = true := if_pos ⟨rfl, hid.symm⟩
  rcases e.putDocument_cases c env collection key j ⟨e.nodeId, true⟩ with
    ⟨previous, -, hcur, hlen, hrows⟩ | ⟨hrefused, -⟩
  · obtain rfl := Except.ok.inj (hnew.symm.trans hcur)
    have hrow := hrows collection key
    rw [if_pos rfl] at hrow
    have hbytes : ∀ v, decode (updatedDocument none j (e.now env.wall).2 e.tagCounter).1.encode ≠
        .ok v := by
      intro v hv
      have hdepth := (decodes_iff_depth (by rw [kMaxDocBytes] at hlen; omega)).mp ⟨v, hv⟩
      rw [updatedDocument, depth_fromJson] at hdepth
      omega
    exact ⟨getDocument_thrown hread hrow hbytes, listDocuments_thrown hread hrow hbytes⟩
  · exact absurd hok hrefused

/-- A document of 66 levels fits a page.  It is accepted, and from then on it cannot be read, and no
list of the collection returns anything, the plain document included. -/
theorem deep_document_poisons :
    let who : Requestor := ⟨plainNode.nodeId, true⟩
    let write := plainNode.putDocument sampleCrypto { wall := 5000 } (text "c") (text "k")
      (nested 65) who
    write.1 = .ok () ∧ write.2.getDocument (text "c") (text "k") who = .error .thrown ∧
      write.2.listDocuments (text "c") [] 0 who = .error .thrown := by
  have hok : (plainNode.putDocument sampleCrypto { wall := 5000 } (text "c") (text "k")
      (nested 65) ⟨plainNode.nodeId, true⟩).1 = .ok () := by decide +kernel
  exact ⟨hok, thrown_after_putDocument hok rfl (by rw [depth_nested]; decide)⟩

/-- A document of two levels. -/
theorem rows_stay_decodable_flat :
    let calls : List WriteCall :=
      [.put { wall := 5000 } (text "c") (text "k") (nested 1) ⟨longNamedNode.nodeId, true⟩]
    (final (writeStep sampleCrypto) longNamedNode calls).Decodable := by
  intro calls
  have hempty : longNamedNode.Decodable := fun collection key bytes hrow => by cases hrow
  exact ((rows_stay_decodable_iff sampleCrypto longNamedNode hempty calls).mpr
    ⟨shallow_of_depth (by decide), trivial⟩).1

end NodeEngine

end DeSentry
