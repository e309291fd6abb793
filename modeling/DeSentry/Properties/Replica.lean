import DeSentry.Construction.Net.Rounds
import DeSentry.Properties.DigestCache
import DeSentry.Properties.ReadAccess
import DeSentry.Properties.StoredDocs

/-!
# A node as a replica of a collection

`Replica c collection e docs` connects a node with the copies it has of the documents of a
collection: every row is the encoding of its copy, and the digest cache is right about it.  This
file says what the parts of a document exchange do to a replica: a `MergeRemote` that is accepted
merges a copy, work on other collections is not seen, and a digest shows the newest stamp and the
hash of each copy.

`offers_iff_missing` is the step from the comparison of fingerprints in `HandleDigest` to the
abstract one: with a hash that tells the documents apart, a copy is sent exactly if it is newer than
the other one, or as new and different.
-/

namespace DeSentry

open ByteCodec KeyedList CrdtValue NodeEngine AssocMap StorageEngine
open List hiding get set

/-! ## What a merge does -/

namespace NodeEngine

variable {c : Crypto} {e : NodeEngine} {env : WriteEnv} {collection key : Bytes}

/-- The merge of a remote document with what was stored has been written. -/
def Merged (c : Crypto) (collection key : Bytes) (remote : CrdtValue) (e e' : NodeEngine) : Prop :=
  ∃ previous, e.currentDocument collection key = .ok previous ∧
    (previous.elim remote (CrdtValue.merge · remote)).encode.length ≤ kMaxDocBytes ∧
    (∀ collection' key', e'.storage.getRaw collection' key' =
      if (collection', key') = (collection, key) then
        .ok (previous.elim remote (CrdtValue.merge · remote)).encode
      else e.storage.getRaw collection' key') ∧
    e'.digestCache = (e.noteDigest c collection key
      (previous.elim remote (CrdtValue.merge · remote)).encode).digestCache

/-- The rows and the digest cache are the same. -/
def SameRows (e e' : NodeEngine) : Prop :=
  (∀ collection key, e'.storage.getRaw collection key = e.storage.getRaw collection key) ∧
    e'.digestCache = e.digestCache

lemma writeMerged_cases (e : NodeEngine) (c : Crypto) (env : WriteEnv) (collection key : Bytes)
    (remote : CrdtValue) :
    (e.writeMerged c env collection key remote).1 = .ok () ∧
        Merged c collection key remote e (e.writeMerged c env collection key remote).2 ∨
      (e.writeMerged c env collection key remote).1 ≠ .ok () ∧
        SameRows e (e.writeMerged c env collection key remote).2 := by
  unfold writeMerged
  cases hcur : e.currentDocument collection key with
  | error failure => exact Or.inr ⟨nofun, fun _ _ => rfl, rfl⟩
  | ok previous =>
    dsimp only
    rcases hput : e.storage.putRaw c env.put collection key
      (previous.elim remote (CrdtValue.merge · remote)).encode with ⟨st | _, storage⟩
    · exact Or.inr ⟨nofun, getRaw_putRaw_of_error hput, rfl⟩
    · refine Or.inl ⟨rfl, previous, hcur, ?_, fun collection' key' => ?_, ?_⟩
      · obtain ⟨hcheck, -⟩ := putRaw_eq_ok hput
        exact length_of_checkPut hcheck
      · rw [storage_persistClockIfDue, storage_noteDigest]
        exact getRaw_putRaw hput collection' key'
      · rw [digestCache_persistClockIfDue]
        unfold noteDigest
        cases digestEntry c key (previous.elim remote (CrdtValue.merge · remote)).encode <;> rfl

lemma digestCache_noteDigest_setClock (clock : HybridLogicalClock) (collection key doc : Bytes) :
    (({ e with clock } : NodeEngine).noteDigest c collection key doc).digestCache =
      (e.noteDigest c collection key doc).digestCache := by
  unfold noteDigest
  cases digestEntry c key doc <;> rfl

/-- **What `MergeRemote` does** to the rows and the cache: it writes the merge, or nothing. -/
lemma mergeRemote_cases (e : NodeEngine) (c : Crypto) (env : WriteEnv)
    (appended : Except Status Unit) (collection key doc : Bytes) (who : Requestor)
    (h : collection ≠ kTransitCollection) :
    (∃ remote, (e.mergeRemote c env appended collection key doc who).1 = .ok () ∧
        decode doc = .ok remote ∧
        Merged c collection key remote e (e.mergeRemote c env appended collection key doc who).2) ∨
      (e.mergeRemote c env appended collection key doc who).1 ≠ .ok () ∧
        SameRows e (e.mergeRemote c env appended collection key doc who).2 := by
  unfold mergeRemote
  rw [if_neg h]
  by_cases hwrite : (!e.canWrite collection who) = true
  · rw [if_pos hwrite]
    exact Or.inr ⟨nofun, fun _ _ => rfl, rfl⟩
  rw [if_neg hwrite]
  cases hdecode : decode doc with
  | error what => exact Or.inr ⟨nofun, fun _ _ => rfl, rfl⟩
  | ok remote =>
    dsimp only
    obtain ⟨clock, -, ⟨st, heq⟩ | heq⟩ := e.mergeDecoded_cases c env collection key remote
    · rw [heq]
      exact Or.inr ⟨nofun, fun _ _ => rfl, rfl⟩
    · rw [heq]
      rcases writeMerged_cases { e with clock } c env collection key remote with
        ⟨hok, previous, hcur, hlen, hrow, hcache⟩ | h
      · refine Or.inl ⟨remote, hok, rfl, previous, hcur, hlen, hrow, ?_⟩
        rw [hcache, digestCache_noteDigest_setClock]
      · exact Or.inr h

end NodeEngine

/-! ## A node as a replica -/

/-- The node has these copies of the documents of a collection, and its digest cache is right about
them. -/
structure Replica (c : Crypto) (collection : Bytes) (e : NodeEngine) (docs : Bytes → Copy) :
    Prop where
  rows : ∀ key, (e.storage.getRaw collection key).toOption = (docs key).map StoredDoc.bytes
  short : ∀ key d, docs key = some d → d.bytes.length < 2 ^ 32
  fresh : ∀ key, Fresh c e collection key

namespace Replica

variable {c : Crypto} {collection : Bytes} {e e' : NodeEngine} {docs : Bytes → Copy} {key : Bytes}
  {d : StoredDoc}

variable (h : Replica c collection e docs)
include h

lemma getRaw_some (hd : docs key = some d) : e.storage.getRaw collection key = .ok d.bytes := by
  have hrow := h.rows key
  rw [hd] at hrow
  cases hraw : e.storage.getRaw collection key with
  | error st =>
    rw [hraw] at hrow
    cases hrow
  | ok bytes =>
    rw [hraw] at hrow
    rw [Option.some.inj hrow]

lemma of_getRaw {bytes : Bytes} (hraw : e.storage.getRaw collection key = .ok bytes) :
    ∃ d, docs key = some d ∧ d.bytes = bytes := by
  have hrow := h.rows key
  rw [hraw] at hrow
  obtain ⟨d, hd, hbytes⟩ := Option.map_eq_some_iff.mp hrow.symm
  exact ⟨d, hd, hbytes⟩

variable {previous : Option CrdtValue}

/-- What a merge reads is the copy. -/
lemma currentDocument (hcur : e.currentDocument collection key = .ok previous) :
    previous = (docs key).map Subtype.val := by
  unfold NodeEngine.currentDocument at hcur
  cases hraw : e.storage.getRaw collection key with
  | error st =>
    have hrow := h.rows key
    rw [hraw] at hrow hcur
    rw [Option.map_eq_none_iff.mp hrow.symm]
    dsimp only at hcur
    split_ifs at hcur
    exact (Except.ok.inj hcur).symm
  | ok bytes =>
    obtain ⟨d, hd, rfl⟩ := h.of_getRaw hraw
    rw [hraw] at hcur
    dsimp only at hcur
    rw [StoredDoc.decode_bytes (h.short key d hd)] at hcur
    rw [hd]
    exact (Except.ok.inj hcur).symm

/-- Nothing changes. -/
lemma same (hrow : ∀ key, e'.storage.getRaw collection key = e.storage.getRaw collection key)
    (hcache : ∀ key, get e'.digestCache (digestCacheKey collection key) =
      get e.digestCache (digestCacheKey collection key)) :
    Replica c collection e' docs where
  rows key := by rw [hrow, h.rows]
  short := h.short
  fresh key := EngineProcess.fresh_congr (h.fresh key) (hrow key) (hcache key)

/-- What `MergeRemote` writes for a copy and a document of a peer. -/
lemma encode_merged (d : StoredDoc) (hcur : e.currentDocument collection key = .ok previous) :
    ∃ m, Copy.merge (docs key) (some d) = some m ∧
      m.bytes = (previous.elim d.1 (CrdtValue.merge · d.1)).encode := by
  rw [h.currentDocument hcur]
  cases docs key with
  | none => exact ⟨d, rfl, rfl⟩
  | some own => exact ⟨own.merge d, rfl, StoredDoc.bytes_merge own d⟩

/-- **A merge of a stored document.** -/
lemma merged (h0 : 0 ∉ collection) (hm : Merged c collection key d.1 e e') :
    Replica c collection e' (Function.update docs key (Copy.merge (docs key) (some d))) := by
  obtain ⟨previous, hcur, hlen, hrow, hcache⟩ := hm
  obtain ⟨m, hmerge, hbytes⟩ := h.encode_merged d hcur
  rw [← hbytes] at hlen hrow hcache
  have hshort : m.bytes.length < 2 ^ 32 := lt_of_le_of_lt hlen (by decide)
  have hrow' (key' : Bytes) : e'.storage.getRaw collection key' =
      if key' = key then .ok m.bytes else e.storage.getRaw collection key' := by
    rw [hrow]
    simp only [Prod.mk.injEq, true_and]
  obtain ⟨entry, hentry⟩ : ∃ entry, digestEntry c key m.bytes = some entry := by
    rw [digestEntry, StoredDoc.decode_bytes hshort]
    exact ⟨_, rfl⟩
  rw [noteDigest, hentry] at hcache
  rw [hmerge]
  refine ⟨fun key' => ?_, fun key' d' hd' => ?_, fun key' => ?_⟩
  · rw [hrow', Function.update_apply]
    split_ifs with hk
    · rfl
    · exact h.rows key'
  · rw [Function.update_apply] at hd'
    split_ifs at hd' with hk
    · rwa [← Option.some.inj hd']
    · exact h.short key' d' hd'
  · by_cases hk : key' = key
    · subst hk
      intro entry' hget
      rw [hcache, get_set_self] at hget
      exact ⟨m.bytes, by rw [hrow', if_pos rfl], hentry.trans hget⟩
    · refine EngineProcess.fresh_congr (h.fresh key') (by rw [hrow', if_neg hk]) ?_
      rw [hcache, get_set_of_ne]
      exact fun heq => hk (digestCacheKey_inj h0 h0 heq).2

/-- The digest of a collection leaves every replica alone. -/
lemma localDigest (h0 : 0 ∉ collection) {collection' : Bytes}
    (h0' : 0 ∉ collection') : Replica c collection (e.localDigest c collection').2 docs where
  rows := h.rows
  short := h.short
  fresh key := by
    intro entry hget
    rcases get_fillDigest c collection' e.digestCache (e.storage.scan collection')
      (digestCacheKey collection key) with hsame | ⟨-, row, hrow, hkey, hnew⟩
    · exact h.fresh key entry (hsame ▸ hget)
    · obtain ⟨rfl, rfl⟩ := digestCacheKey_inj h0' h0 hkey
      exact ⟨row.2, mem_scan_iff.mp hrow, hnew.symm.trans hget⟩

end Replica

namespace NetworkManager

variable {c : Crypto} {collection : Bytes} {e : NodeEngine} {docs : Bytes → Copy}

/-- Merges into another collection are not seen, whatever they answer. -/
lemma replica_mergeDocs_other (h : Replica c collection e docs) (h0 : 0 ∉ collection)
    {collection' : Bytes} (h0' : 0 ∉ collection') (hne : collection ≠ collection')
    (ht : collection' ≠ kTransitCollection) (who : Requestor) (env : ℕ → MergeEnv)
    (given : List DocEntry) :
    Replica c collection (mergeDocs c collection' who env e given).2 docs := by
  induction given generalizing env e with
  | nil => exact h
  | cons doc given ih =>
    have hnext : Replica c collection (e.mergeRemote c (env 0).write (env 0).appended collection'
        doc.key doc.encodedDoc who).2 docs := by
      rcases e.mergeRemote_cases c (env 0).write (env 0).appended collection' doc.key
        doc.encodedDoc who ht with ⟨remote, -, -, previous, -, -, hrow, hcache⟩ | ⟨-, hrow, hcache⟩
      · refine h.same (fun key => ?_) (fun key => ?_)
        · rw [hrow, if_neg fun heq => hne (Prod.mk.inj heq).1]
        · rw [hcache, noteDigest]
          split
          · rfl
          · rw [get_set_of_ne fun heq => hne (digestCacheKey_inj h0 h0' heq).1]
      · exact h.same (fun key => hrow collection key) (fun key => by rw [hcache])
    rw [mergeDocs]
    rcases hmerge : e.mergeRemote c (env 0).write (env 0).appended collection' doc.key
      doc.encodedDoc who with ⟨(st | _) | _, e'⟩ <;> rw [hmerge] at hnext
    · exact ih hnext _
    · exact hnext
    · exact ih hnext _

/-- **Merges into the collection**, all of them accepted, of documents a peer has stored. -/
lemma replica_mergeDocs (h : Replica c collection e docs) (h0 : 0 ∉ collection)
    (ht : collection ≠ kTransitCollection) (who : Requestor) (env : ℕ → MergeEnv)
    (given : List DocEntry) (theirs : Bytes → Copy)
    (hgiven : ∀ doc ∈ given, ∃ d, theirs doc.key = some d ∧ doc.encodedDoc = d.bytes ∧
      d.bytes.length < 2 ^ 32)
    (hok : ∀ answer ∈ mergeAnswers c collection who env e given, answer = .ok ()) :
    (mergeDocs c collection who env e given).1 = true ∧
      Replica c collection (mergeDocs c collection who env e given).2 fun key =>
        if key ∈ given.map DocEntry.key then Copy.merge (docs key) (theirs key) else docs key := by
  induction given generalizing env e docs with
  | nil => exact ⟨rfl, h⟩
  | cons doc given ih =>
    obtain ⟨d, htheirs, hdoc, hshort⟩ := hgiven doc mem_cons_self
    have hdecode : decode doc.encodedDoc = .ok d.1 := by
      rw [hdoc, StoredDoc.decode_bytes hshort]
    rw [mergeDocs]
    rw [mergeAnswers] at hok
    rcases e.mergeRemote_cases c (env 0).write (env 0).appended collection doc.key
      doc.encodedDoc who ht with ⟨remote, hanswer, hremote, hmerged⟩ | ⟨hanswer, -⟩
    · obtain rfl := Except.ok.inj (hdecode.symm.trans hremote)
      have hnext := h.merged h0 hmerged
      rcases hmerge : e.mergeRemote c (env 0).write (env 0).appended collection doc.key
        doc.encodedDoc who with ⟨answer, e'⟩
      rw [hmerge] at hok hnext hanswer
      obtain rfl : answer = .ok () := hanswer
      obtain ⟨hdone, hrest⟩ := ih hnext _ (fun doc' hdoc' =>
        hgiven doc' (mem_cons_of_mem _ hdoc')) fun answer ha =>
          hok answer (mem_cons_of_mem _ ha)
      refine ⟨hdone, ?_⟩
      convert hrest using 2 with key
      -- a document that is given twice is merged once more, which changes nothing
      by_cases hk : key = doc.key
      · subst hk
        rw [Function.update_self, map_cons, if_pos mem_cons_self, htheirs]
        split_ifs
        · exact (Copy.tieMerge.merge_merge_right _ _).symm
        · rfl
      · simp only [Function.update_of_ne hk, map_cons, mem_cons, hk, false_or]
    · exfalso
      rcases hmerge : e.mergeRemote c (env 0).write (env 0).appended collection doc.key
        doc.encodedDoc who with ⟨answer, e'⟩
      rw [hmerge] at hok hanswer
      rcases answer with (st | _) | _
      · exact hanswer (hok _ mem_cons_self)
      · exact hanswer (hok _ mem_cons_self)
      · exact hanswer rfl

/-! ## Digests -/

/-- The fingerprint of a stored document. -/
def fingerprint (c : Crypto) (d : StoredDoc) : Fingerprint :=
  ⟨d.1.maxTimestamp, (c.sha256 d.bytes).take 8⟩

lemma mem_localDigest (h : Replica c collection e docs) {entry : DigestEntryOut} :
    entry ∈ (e.localDigest c collection).1 ↔ ∃ d, docs entry.key = some d ∧
      fingerprint c d = ⟨entry.topTs, entry.contentHash⟩ := by
  have hentry {key : Bytes} {d : StoredDoc} (hd : docs key = some d) :
      digestEntry c key d.bytes = some ⟨key, d.1.maxTimestamp, (c.sha256 d.bytes).take 8⟩ := by
    rw [digestEntry, StoredDoc.decode_bytes (h.short key d hd)]
  rw [localDigest_of_fresh h.fresh, mem_filterMap]
  constructor
  · rintro ⟨⟨key, bytes⟩, hrow, hdigest⟩
    obtain ⟨d, hd, rfl⟩ := h.of_getRaw (mem_scan_iff.mp hrow)
    rw [hentry hd] at hdigest
    obtain rfl := Option.some.inj hdigest
    exact ⟨d, hd, rfl⟩
  · rintro ⟨d, hd, hfp⟩
    refine ⟨(entry.key, d.bytes), mem_scan_iff.mpr (h.getRaw_some hd), ?_⟩
    rw [hentry hd]
    obtain ⟨hts, hhash⟩ := Fingerprint.mk.inj hfp
    rw [hts, hhash]

/-- The map `remote` of the peer is the map `local` of the node that sent the digest. -/
lemma remoteFingerprints_digestPayload : remoteFingerprints (digestPayload c e collection).entries =
      localFingerprints c e collection := by
  unfold remoteFingerprints digestPayload localFingerprints
  rw [foldl_map]
  simp only [HLCTimestamp.decode_encode]

variable {ds : List DigestEntryOut} {m : List (Bytes × Fingerprint)} {p : Bytes × Fingerprint}

/-- The entries of a map built by setting one after the other. -/
lemma mem_foldl_set (h : p ∈ ds.foldl (fun m d => set m d.key ⟨d.topTs, d.contentHash⟩) m)
    :
    p ∈ m ∨ ∃ d ∈ ds, p = (d.key, ⟨d.topTs, d.contentHash⟩) := by
  induction ds generalizing m with
  | nil => exact Or.inl h
  | cons d ds ih =>
    rcases ih h with hm | ⟨d', hd', rfl⟩
    · rcases mem_cons.mp hm with rfl | hm
      · exact Or.inr ⟨d, mem_cons_self, rfl⟩
      · exact Or.inl (mem_of_mem_filter hm)
    · exact Or.inr ⟨d', mem_cons_of_mem _ hd', rfl⟩

lemma isSome_get_foldl_set {k : Bytes} (h : (get m k).isSome ∨ ∃ d ∈ ds, d.key = k) :
    (get (ds.foldl (fun m d => set m d.key ⟨d.topTs, d.contentHash⟩) m)
      k).isSome := by
  induction ds generalizing m with
  | nil => exact h.resolve_right fun ⟨d, hd, _⟩ => absurd hd not_mem_nil
  | cons d ds ih =>
    refine ih ?_
    rw [get_set]
    by_cases hk : k = d.key
    · rw [if_pos hk]
      exact Or.inl rfl
    · rw [if_neg hk]
      refine h.imp_right ?_
      rintro ⟨d', hd', rfl⟩
      rcases mem_cons.mp hd' with rfl | hd'
      · exact absurd rfl hk
      · exact ⟨d', hd', rfl⟩

lemma mem_localFingerprints (h : Replica c collection e docs)
    (hp : p ∈ localFingerprints c e collection) :
    ∃ d, docs p.1 = some d ∧ fingerprint c d = p.2 := by
  rcases mem_foldl_set hp with hp | ⟨entry, hentry, rfl⟩
  · exact absurd hp not_mem_nil
  · exact (mem_localDigest h).mp hentry

/-- The fingerprints of a replica. -/
lemma get_localFingerprints (h : Replica c collection e docs) (key : Bytes) :
    get (localFingerprints c e collection) key = (docs key).map (fingerprint c) := by
  cases hget : get (localFingerprints c e collection) key with
  | some fp =>
    obtain ⟨d, hd, rfl⟩ := mem_localFingerprints h (mem_of_get hget)
    rw [show docs key = some d from hd]
    rfl
  | none =>
    cases hd : docs key with
    | none => rfl
    | some d =>
      have hsome : (get (localFingerprints c e collection) key).isSome :=
        isSome_get_foldl_set (Or.inr ⟨⟨key, d.1.maxTimestamp, (c.sha256 d.bytes).take 8⟩,
          (mem_localDigest h).mpr ⟨d, hd, rfl⟩, rfl⟩)
      rw [hget] at hsome
      cases hsome

/-! ## The answer to a digest -/

variable {e' : NodeEngine} {docs' : Bytes → Copy}

/-- The hash of the digests tells the two nodes' documents apart. -/
def HashSeparates (c : Crypto) (collection : Bytes) (e e' : NodeEngine) : Prop :=
  ∀ key bytes bytes', e.storage.getRaw collection key = .ok bytes →
    e'.storage.getRaw collection key = .ok bytes' →
      (c.sha256 bytes).take 8 = (c.sha256 bytes').take 8 → bytes = bytes'

lemma HashSeparates.symm (h : HashSeparates c collection e e') : HashSeparates c collection e' e :=
  fun key bytes bytes' hrow hrow' hhash => (h key bytes' bytes hrow' hrow hhash.symm).symm

variable {key : Bytes} {d : StoredDoc}

/-- **The comparison of fingerprints.**  A copy is missing on the other side exactly if it is newer
than the one there, or as new and different. -/
lemma offers_iff_missing (h : Replica c collection e docs) (h' : Replica c collection e' docs')
    (hsep : HashSeparates c collection e e') (hd : docs key = some d) :
    missing (localFingerprints c e' collection) (key, fingerprint c d) = true ↔
      AntiEntropy.Offers Copy.top (docs key) (docs' key) := by
  unfold missing AntiEntropy.Offers
  rw [get_localFingerprints h', hd]
  cases hd' : docs' key with
  | none => exact iff_of_true rfl (Or.inl (WithBot.bot_lt_coe _))
  | some d' =>
    have hhash : (c.sha256 d.bytes).take 8 ≠ (c.sha256 d'.bytes).take 8 ↔ some d' ≠ some d := by
      refine not_congr ⟨fun hhash => ?_, fun heq => by rw [Option.some.inj heq]⟩
      have hbytes := hsep key _ _ (h.getRaw_some hd) (h'.getRaw_some hd') hhash
      rw [(StoredDoc.bytes_inj (h.short key d hd)).mp hbytes]
    have hlt : (Copy.top (some d') < Copy.top (some d)) ↔ d'.1.maxTimestamp < d.1.maxTimestamp :=
      WithBot.coe_lt_coe
    have heq : (Copy.top (some d') = Copy.top (some d)) ↔ d'.1.maxTimestamp = d.1.maxTimestamp :=
      WithBot.coe_inj
    rw [hlt, heq, ← hhash]
    simp only [Option.map_some, Fingerprint.differs, fingerprint, Bool.or_eq_true, decide_eq_true_iff,
      Bool.and_eq_true, Bool.not_eq_true', decide_eq_false_iff_not, gt_iff_lt, not_lt]
    constructor
    · rintro (hlt | ⟨hle, hne⟩)
      · exact Or.inl hlt
      · exact hle.lt_or_eq.imp id fun heq => ⟨heq, of_decide_eq_true hne⟩
    · rintro (hlt | ⟨heq, hne⟩)
      · exact Or.inl hlt
      · exact Or.inr ⟨heq.le, decide_eq_true hne⟩

/-- The documents the first loop of `HandleDigest` would push without a limit. -/
def offered (e : NodeEngine) (collection : Bytes) (remote entries : List (Bytes × Fingerprint)) :
    List DocEntry :=
  entries.filterMap fun entry =>
    if missing remote entry then
      (e.getRawEncoded collection entry.1).toOption.map fun doc => ⟨entry.1, doc⟩
    else none

/-- The keys the second loop would want without a limit. -/
def wanted (stored entries : List (Bytes × Fingerprint)) : List Bytes :=
  (entries.filter (missing stored)).map Prod.fst

/-- What the loops count for the documents that are pushed. -/
def pushedBytes (docs : List DocEntry) : ℕ :=
  (docs.map fun doc => doc.key.length + doc.encodedDoc.length + 8).sum

/-- What the loops count for the keys that are wanted. -/
def wantedBytes (keys : List Bytes) : ℕ := (keys.map fun key => key.length + 4).sum

lemma pushLoop_eq (e : NodeEngine) (collection : Bytes) (remote : List (Bytes × Fingerprint))
    (s : DeltaState) (entries : List (Bytes × Fingerprint))
    (h : s.deltaBytes + pushedBytes (offered e collection remote entries) ≤ kMaxDeltaBytes) :
    pushLoop e collection remote s entries =
      ⟨{ s.response with
          pushed := s.response.pushed ++ offered e collection remote entries },
        s.deltaBytes + pushedBytes (offered e collection remote entries)⟩ := by
  induction entries generalizing s with
  | nil =>
    rw [offered, filterMap_nil, append_nil]
    rfl
  | cons entry entries ih =>
    rw [pushLoop]
    rw [offered, filterMap_cons] at h ⊢
    by_cases hmissing : missing remote entry = true
    · rw [if_pos hmissing] at h ⊢
      rw [if_neg (by rw [hmissing]; decide)]
      cases hraw : e.getRawEncoded collection entry.1 with
      | error st =>
        rw [hraw] at h
        exact ih s h
      | ok doc =>
        rw [hraw] at h
        have hsum : pushedBytes (⟨entry.1, doc⟩ :: offered e collection remote entries) =
            entry.1.length + doc.length + 8 +
              pushedBytes (offered e collection remote entries) := rfl
        change s.deltaBytes + pushedBytes (⟨entry.1, doc⟩ :: offered e collection remote entries) ≤
          _ at h
        have hfull : ¬ s.full (entry.1.length + doc.length + 8) = true := by
          unfold DeltaState.full
          rw [Bool.and_eq_true, decide_eq_true_iff]
          exact fun hf => absurd hf.2 (by omega)
        dsimp only
        rw [if_neg hfull, ih _ (by dsimp only; omega)]
        dsimp only [Except.toOption, Option.map_some]
        rw [append_assoc, Nat.add_assoc]
        rfl
    · rw [if_neg hmissing] at h ⊢
      rw [if_pos (by rw [Bool.not_eq_true] at hmissing; rw [hmissing]; decide)]
      exact ih s h

lemma wantLoop_eq (stored : List (Bytes × Fingerprint)) (s : DeltaState)
    (entries : List (Bytes × Fingerprint))
    (h : s.deltaBytes + wantedBytes (wanted stored entries) ≤ kMaxDeltaBytes) :
    (wantLoop stored s entries).response =
      { s.response with wantedKeys := s.response.wantedKeys ++ wanted stored entries } := by
  induction entries generalizing s with
  | nil =>
    rw [wantLoop, wanted, filter_nil, map_nil, append_nil]
  | cons entry entries ih =>
    rw [wantLoop]
    by_cases hmissing : missing stored entry = true
    · rw [if_neg (by rw [hmissing]; decide)]
      have hcons : wanted stored (entry :: entries) = entry.1 :: wanted stored entries := by
        rw [wanted, filter_cons_of_pos hmissing]
        rfl
      rw [hcons] at h ⊢
      have hsum : wantedBytes (entry.1 :: wanted stored entries) =
          entry.1.length + 4 + wantedBytes (wanted stored entries) := rfl
      have hfull : ¬ s.full (entry.1.length + 4) = true := by
        unfold DeltaState.full
        rw [Bool.and_eq_true, decide_eq_true_iff]
        exact fun hf => absurd hf.2 (by omega)
      dsimp only
      rw [if_neg hfull, ih _ (by dsimp only; omega)]
      dsimp only
      rw [append_assoc]
      rfl
    · rw [if_pos (by rw [Bool.not_eq_true] at hmissing; rw [hmissing]; decide)]
      have hcons : wanted stored (entry :: entries) = wanted stored entries := by
        rw [wanted, filter_cons_of_neg hmissing]
        rfl
      rw [hcons] at h ⊢
      exact ih s h

/-- The answer fits into one message: the limit of `HandleDigest` is not reached. -/
def Unlimited (c : Crypto) (order : MapOrder (Bytes × Fingerprint)) (collection : Bytes)
    (e e' : NodeEngine) : Prop :=
  let mine := localFingerprints c e collection
  let theirs := localFingerprints c e' collection
  collection.length + 32 + pushedBytes (offered e' collection mine (order.1 theirs)) +
    wantedBytes (wanted theirs (order.1 mine)) ≤ kMaxDeltaBytes

/-- **The answer to a digest** that is below the limit. -/
lemma digestResponse_eq (order : MapOrder (Bytes × Fingerprint)) {peer : Bytes}
    (hread : e'.canRead collection { nodeId := peer } = true)
    (hlimit : Unlimited c order collection e e') :
    digestResponse c order e' peer (digestPayload c e collection) =
      { collection
        pushed := offered e' collection (localFingerprints c e collection)
          (order.1 (localFingerprints c e' collection))
        wantedKeys := wanted (localFingerprints c e' collection)
          (order.1 (localFingerprints c e collection)) } := by
  unfold Unlimited at hlimit
  have hnot : ¬ (!e'.canRead (digestPayload c e collection).collection { nodeId := peer }) = true := by
    change ¬ (!e'.canRead collection { nodeId := peer }) = true
    rw [hread]
    decide
  rw [digestResponse, if_neg hnot, remoteFingerprints_digestPayload]
  change (wantLoop (localFingerprints c e' collection) (pushLoop e' collection
    (localFingerprints c e collection) ⟨{ collection }, collection.length + 32⟩
      (order.1 (localFingerprints c e' collection)))
        (order.1 (localFingerprints c e collection))).response = _
  rw [pushLoop_eq _ _ _ _ _ (by dsimp only at hlimit ⊢; omega),
    wantLoop_eq _ _ _ (by dsimp only at hlimit ⊢; omega)]
  rfl

lemma getRawEncoded_some (h : Replica c collection e docs) (hd : docs key = some d) :
    e.getRawEncoded collection key = .ok d.bytes := by
  rw [getRawEncoded, h.getRaw_some hd]

/-- The documents that are pushed. -/
lemma mem_offered (h : Replica c collection e docs) (h' : Replica c collection e' docs')
    (hsep : HashSeparates c collection e e') (order : MapOrder (Bytes × Fingerprint))
    {doc : DocEntry} :
    doc ∈ offered e collection (localFingerprints c e' collection)
        (order.1 (localFingerprints c e collection)) ↔
      ∃ d, docs doc.key = some d ∧ doc.encodedDoc = d.bytes ∧
        AntiEntropy.Offers Copy.top (docs doc.key) (docs' doc.key) := by
  rw [offered, mem_filterMap]
  constructor
  · rintro ⟨⟨key, fp⟩, hentry, hdoc⟩
    obtain ⟨d, hd, hfp⟩ := mem_localFingerprints h ((order.2 _).mem_iff.mp hentry)
    subst hfp
    rw [getRawEncoded_some h hd, Option.ite_none_right_eq_some] at hdoc
    obtain ⟨hmissing, hdoc⟩ := hdoc
    obtain rfl := Option.some.inj hdoc
    exact ⟨d, hd, rfl, (offers_iff_missing h h' hsep hd).mp hmissing⟩
  · rintro ⟨d, hd, hbytes, hoffers⟩
    have hget : get (localFingerprints c e collection) doc.key = some (fingerprint c d) := by
      rw [get_localFingerprints h, hd]
      rfl
    refine ⟨(doc.key, fingerprint c d), (order.2 _).mem_iff.mpr (mem_of_get hget), ?_⟩
    rw [if_pos ((offers_iff_missing h h' hsep hd).mpr hoffers), getRawEncoded_some h hd, ← hbytes]
    rfl

/-- Nothing is never offered. -/
lemma exists_of_offers {a b : Copy} (h : AntiEntropy.Offers Copy.top a b) : ∃ d, a = some d := by
  cases a with
  | some d => exact ⟨d, rfl⟩
  | none =>
    rcases h with hlt | ⟨heq, hne⟩
    · exact absurd hlt not_lt_bot
    · cases b with
      | none => exact absurd rfl hne
      | some d => exact absurd heq WithBot.coe_ne_bot

/-- The keys that are wanted: the other side would offer its copies. -/
lemma mem_wanted (h : Replica c collection e docs) (h' : Replica c collection e' docs')
    (hsep : HashSeparates c collection e e') (order : MapOrder (Bytes × Fingerprint)) :
    key ∈ wanted (localFingerprints c e' collection)
        (order.1 (localFingerprints c e collection)) ↔
      AntiEntropy.Offers Copy.top (docs key) (docs' key) := by
  rw [wanted, mem_map]
  constructor
  · rintro ⟨⟨key, fp⟩, hentry, rfl⟩
    obtain ⟨hentry, hmissing⟩ := mem_filter.mp hentry
    obtain ⟨d, hd, hfp⟩ := mem_localFingerprints h ((order.2 _).mem_iff.mp hentry)
    subst hfp
    exact (offers_iff_missing h h' hsep hd).mp hmissing
  · intro hoffers
    obtain ⟨d, hd⟩ := exists_of_offers hoffers
    have hget : get (localFingerprints c e collection) key = some (fingerprint c d) := by
      rw [get_localFingerprints h, hd]
      rfl
    refine ⟨(key, fingerprint c d), mem_filter.mpr
      ⟨(order.2 _).mem_iff.mpr (mem_of_get hget), ?_⟩, rfl⟩
    exact (offers_iff_missing h h' hsep hd).mpr hoffers

end NetworkManager

end DeSentry
