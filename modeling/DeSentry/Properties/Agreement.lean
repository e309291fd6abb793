import DeSentry.Properties.Replica

/-!
# Agreement after two rounds

The exchange of a collection between two nodes refines the abstract exchange key by key
(`replica_turn`): every copy is compared, offered and merged as if it were the only one.  With that,
two rounds bring two nodes to agree exactly if every two copies are reconcilable
(`two_rounds_agree_iff`): equal stamps mean equal writes in them, and the merge of two copies that
are not equally new does not lose the newest stamp.  Once the nodes agree, no further round sends or
writes a document (`replica_loop_same`).

Copies that are not reconcilable stay apart for good (`equal_stamps_never_agree`).
-/

namespace DeSentry

open ByteCodec KeyedList Runs CrdtValue NodeEngine List

namespace NetworkManager

variable {c : Crypto} {collection : Bytes} {env : ExchangeEnv} {x y : NetworkManager}
  {docs docs' : Bytes → Copy} {peer : Bytes} {rest : List Bytes}

/-! ## The exchange of one collection -/

/-- The exchange of a collection with the steps of the nodes put together, for any answer of the
peer. -/
def exchangeWith (c : Crypto) (env : ExchangeEnv) (x y : NetworkManager) (peer collection : Bytes)
    (rest : List Bytes) (delta : DeltaResponsePayload) :
    (NetworkManager × NetworkManager) × Traffic :=
  let digest := digestPayload c x.engine collection
  let e := (x.engine.localDigest c collection).2
  let merged := mergeDocs c collection { nodeId := peer } env.answer.merge e delta.pushed
  let x₂ : NetworkManager := { x with
    engine := merged.2
    exchange := if merged.1 then some { peer, remaining := rest } else none }
  let given := if merged.1 then
      x₂.fulfil env.answer.messageId peer collection delta.wantedKeys
    else []
  let delivered := deliver c env.broadcast x.self (y.digested c x.self digest) given
  ((x₂, delivered.1), {
    messages := x.outbound peer (.digest digest) ::
      y.outbound x.self (.deltaResponse delta) :: given ++ delivered.2.messages
    merges := (mergeAnswers c collection { nodeId := peer } env.answer.merge e
      delta.pushed).map (fun answer => (collection, answer)) ++ delivered.2.merges })

lemma exchangeNext_eq (c : Crypto) (env : ExchangeEnv) (y : NetworkManager)
    (hexchange : x.exchange = some { peer, remaining := collection :: rest }) :
    exchangeNext c env x y = exchangeWith c env x y peer collection rest
      (digestResponse c env.order y.engine x.self (digestPayload c x.engine collection)) := by
  have hask : x.askNext c = ({ x with
      engine := (x.engine.localDigest c collection).2
      exchange := some { peer, asked := some collection, remaining := rest } },
      [x.outbound peer (.digest (digestPayload c x.engine collection))]) := by
    rw [askNext, hexchange]
  have hanswer (delta : DeltaResponsePayload) : handleAnswer { x with
      engine := (x.engine.localDigest c collection).2
      exchange := some { peer, asked := some collection, remaining := rest } } c env.answer
      (.ok (.deltaResponse delta)) =
      (let merged := mergeDocs c collection { nodeId := peer } env.answer.merge
        (x.engine.localDigest c collection).2 delta.pushed
      let x₂ : NetworkManager := { x with
        engine := merged.2
        exchange := if merged.1 then some { peer, remaining := rest } else none }
      (x₂, if merged.1 then x₂.fulfil env.answer.messageId peer collection delta.wantedKeys
        else [])) := by
    unfold handleAnswer
    dsimp only
    rcases mergeDocs c collection { nodeId := peer } env.answer.merge
      (x.engine.localDigest c collection).2 delta.pushed with ⟨_ | _, engine⟩
    · rfl
    · rfl
  rw [exchangeNext, hask]
  dsimp only [outbound]
  rw [hanswer]
  rfl

/-- Without a collection left the exchange does nothing. -/
lemma exchangeNext_end (c : Crypto) (env : ExchangeEnv) (y : NetworkManager)
    (h : x.exchange = none ∨ x.exchange = some { peer, remaining := [] }) :
    exchangeNext c env x y = (({ x with exchange := none }, y), {}) := by
  have hask : x.askNext c = ({ x with exchange := none }, []) := by
    rw [askNext]
    rcases h with h | h
    · rw [h]
      dsimp only
      rw [← h]
    · rw [h]
  rw [exchangeNext, hask]

/-- The traffic has nothing of a collection: no document is sent and none is merged. -/
def Traffic.Avoids (collection : Bytes) (traffic : Traffic) : Prop :=
  (∀ m ∈ traffic.messages, collection ∉ m.message.carried) ∧
    ∀ merge ∈ traffic.merges, merge.1 ≠ collection

lemma Traffic.Avoids.append {t t' : Traffic} (h : t.Avoids collection) (h' : t'.Avoids collection) :
    Traffic.Avoids collection ⟨t.messages ++ t'.messages, t.merges ++ t'.merges⟩ :=
  ⟨fun m hm => (mem_append.mp hm).elim (h.1 m) (h'.1 m),
    fun merge hmerge => (mem_append.mp hmerge).elim (h.2 merge) (h'.2 merge)⟩

/-- What a node does with a broadcast: the merges, if it is new. -/
lemma engine_handleOpBroadcast (env : BroadcastEnv) (sender : Bytes)
    (broadcast : OpBroadcastPayload) : (y.handleOpBroadcast c env sender broadcast).1.engine =
      if (y.dedup.noteAndCheckNew broadcast.messageId).1 then
        (mergeDocs c broadcast.collection { nodeId := sender } env.merge y.engine broadcast.docs).2
      else y.engine := by
  unfold handleOpBroadcast
  rcases y.dedup.noteAndCheckNew broadcast.messageId with ⟨_ | _, dedup⟩
  · rfl
  · rcases mergeDocs c broadcast.collection { nodeId := sender } env.merge y.engine
      broadcast.docs with ⟨_ | _, engine⟩ <;> rfl

/-- A fulfilment is not relayed, and the answers carry no documents. -/
lemma carried_handleOpBroadcast {env : BroadcastEnv} {sender : Bytes}
    {broadcast : OpBroadcastPayload} (httl : broadcast.ttl = 0) {m : Outbound}
    (hm : m ∈ (y.handleOpBroadcast c env sender broadcast).2) : m.message.carried = [] := by
  unfold handleOpBroadcast at hm
  rcases hnew : y.dedup.noteAndCheckNew broadcast.messageId with ⟨_ | _, dedup⟩ <;> rw [hnew] at hm
  · obtain rfl := mem_singleton.mp hm
    rfl
  · rcases hmerge : mergeDocs c broadcast.collection { nodeId := sender } env.merge y.engine
      broadcast.docs with ⟨_ | _, engine⟩ <;> rw [hmerge] at hm
    · obtain rfl := mem_singleton.mp hm
      rfl
    · dsimp only at hm
      rw [relay, httl] at hm
      obtain rfl := mem_singleton.mp hm
      exact carried_broadcastReply ..

/-- The fulfilment with its documents. -/
def fulfilment (env : ExchangeEnv) (collection : Bytes) (docs : List DocEntry) :
    OpBroadcastPayload :=
  { collection, docs, messageId := env.answer.messageId, ttl := 0 }

/-- The delivery of a fulfilment, if there is one. -/
lemma deliver_fulfil (sender : Bytes) (keys : List Bytes) :
    deliver c env.broadcast sender y (x.fulfil env.answer.messageId peer collection keys) =
      (let docs := fulfilledDocs x.engine collection keys
      let delivered := y.handleOpBroadcast c env.broadcast sender (fulfilment env collection docs)
      if docs = [] then (y, {})
      else (delivered.1, {
        messages := delivered.2
        merges := if (y.dedup.noteAndCheckNew env.answer.messageId).1 then
            (mergeAnswers c collection { nodeId := sender } env.broadcast.merge y.engine
              docs).map fun answer => (collection, answer)
          else [] })) := by
  unfold fulfil
  by_cases hdocs : fulfilledDocs x.engine collection keys = []
  · rw [if_pos hdocs, if_pos hdocs]
    rfl
  · rw [if_neg hdocs, if_neg hdocs]
    rfl

/-- What a delivery can do. -/
lemma deliver_fulfil_cases (c : Crypto) (env : ExchangeEnv) (x y : NetworkManager)
    (sender peer collection : Bytes) (keys : List Bytes) :
    let delivered := deliver c env.broadcast sender y
      (x.fulfil env.answer.messageId peer collection keys)
    (delivered.1.engine = y.engine ∨ delivered.1.engine = (mergeDocs c collection
      { nodeId := sender } env.broadcast.merge y.engine
        (fulfilledDocs x.engine collection keys)).2) ∧
    (∀ m ∈ delivered.2.messages, m.message.carried = []) ∧
    ∀ merge ∈ delivered.2.merges, merge.1 = collection := by
  rw [deliver_fulfil]
  by_cases hdocs : fulfilledDocs x.engine collection keys = []
  · rw [if_pos hdocs]
    exact ⟨Or.inl rfl, nofun, nofun⟩
  · rw [if_neg hdocs]
    refine ⟨?_, fun m hm => carried_handleOpBroadcast rfl hm, fun merge hmerge => ?_⟩
    · rw [engine_handleOpBroadcast]
      split_ifs
      · exact Or.inr rfl
      · exact Or.inl rfl
    · split_ifs at hmerge
      · obtain ⟨answer, -, rfl⟩ := mem_map.mp hmerge
        rfl
      · exact absurd hmerge not_mem_nil

/-! ### Another collection -/

lemma digested_eq (c : Crypto) (peer : Bytes) (digest : DigestPayload) :
    (y.digested c peer digest).engine = y.engine ∨
      (y.digested c peer digest).engine = (y.engine.localDigest c digest.collection).2 := by
  unfold digested
  split_ifs
  · exact Or.inl rfl
  · exact Or.inr rfl

lemma dedup_digested (digest : DigestPayload) : (y.digested c peer digest).dedup = y.dedup := by
  unfold digested
  split_ifs <;> rfl

lemma replica_digested (h : Replica c collection y.engine docs) (h0 : 0 ∉ collection)
    {digest : DigestPayload} (h0' : 0 ∉ digest.collection) (peer : Bytes) :
    Replica c collection (y.digested c peer digest).engine docs := by
  rcases digested_eq c peer digest with heq | heq <;> rw [heq]
  · exact h
  · exact h.localDigest h0 h0'

lemma collection_digestResponse (order : MapOrder (Bytes × Fingerprint)) (e : NodeEngine)
    (digest : DigestPayload) :
    (digestResponse c order e peer digest).collection = digest.collection := by
  unfold digestResponse
  split_ifs
  · rfl
  · rw [(response_wantLoop ..).1, collection_pushLoop]

/-- The traffic of a collection is about that collection only. -/
lemma avoids_exchangeNext {collection' : Bytes}
    (hexchange : x.exchange = some { peer, remaining := collection' :: rest })
    (hne : collection ≠ collection') (ht : collection' ≠ kTransitCollection) :
    (exchangeNext c env x y).2.Avoids collection := by
  rw [exchangeNext_eq c env y hexchange]
  have hgiven {x₂ : NetworkManager} {keys : List Bytes} {m : Outbound}
      (hm : m ∈ x₂.fulfil env.answer.messageId peer collection' keys) :
      collection ∉ m.message.carried := by
    obtain ⟨-, rfl⟩ := mem_fulfil.mp hm
    intro hmem
    obtain ⟨doc, -, hmem⟩ := mem_flatMap.mp hmem
    rw [broadcastCollections, if_neg ht] at hmem
    exact hne (mem_singleton.mp hmem)
  constructor
  · intro m hm
    rcases mem_cons.mp hm with rfl | hm
    · exact not_mem_nil
    rcases mem_cons.mp hm with rfl | hm
    · intro hmem
      obtain ⟨doc, -, heq⟩ := mem_map.mp hmem
      rw [collection_digestResponse] at heq
      exact hne heq.symm
    rcases mem_append.mp hm with hm | hm
    · split_ifs at hm
      · exact hgiven hm
      · exact absurd hm not_mem_nil
    · split_ifs at hm
      · rw [(deliver_fulfil_cases ..).2.1 m hm]
        exact not_mem_nil
      · exact absurd hm not_mem_nil
  · intro merge hmerge
    rcases mem_append.mp hmerge with hmerge | hmerge
    · obtain ⟨answer, -, rfl⟩ := mem_map.mp hmerge
      exact hne.symm
    · split_ifs at hmerge
      · rw [(deliver_fulfil_cases ..).2.2 merge hmerge]
        exact hne.symm
      · exact absurd hmerge not_mem_nil

/-- **The exchange of another collection is not seen**, whatever its merges answer. -/
lemma replica_other (env : ExchangeEnv) {collection' : Bytes}
    (hx : Replica c collection x.engine docs)
    (hy : Replica c collection y.engine docs') (h0 : 0 ∉ collection)
    (hexchange : x.exchange = some { peer, remaining := collection' :: rest })
    (hne : collection ≠ collection') (h0' : 0 ∉ collection')
    (ht : collection' ≠ kTransitCollection) :
    Replica c collection (exchangeNext c env x y).1.1.engine docs ∧
      Replica c collection (exchangeNext c env x y).1.2.engine docs' ∧
      ((exchangeNext c env x y).1.1.exchange = none ∨
        (exchangeNext c env x y).1.1.exchange = some { peer, remaining := rest }) := by
  rw [exchangeNext_eq c env y hexchange, exchangeWith]
  refine ⟨replica_mergeDocs_other (hx.localDigest h0 h0') h0 h0' hne ht _ _ _, ?_, ?_⟩
  · have hdigested : Replica c collection (y.digested c x.self
        (digestPayload c x.engine collection')).engine docs' := replica_digested hy h0 h0' x.self
    split_ifs
    · rcases (deliver_fulfil_cases ..).1 with heq | heq <;> rw [heq]
      · exact hdigested
      · exact replica_mergeDocs_other hdigested h0 h0' hne ht _ _ _
    · exact hdigested
  · split_ifs
    · exact Or.inr rfl
    · exact Or.inl rfl

/-! ### The collection itself -/

lemma pushLoop_of_not_missing (e : NodeEngine) (collection : Bytes)
    {remote entries : List (Bytes × Fingerprint)} (s : DeltaState)
    (h : ∀ entry ∈ entries, missing remote entry = false) :
    pushLoop e collection remote s entries = s := by
  induction entries with
  | nil => rfl
  | cons entry entries ih =>
    rw [pushLoop, if_pos (by rw [h entry mem_cons_self]; rfl)]
    exact ih fun entry' hentry' => h entry' (mem_cons_of_mem _ hentry')

lemma wantLoop_of_not_missing {stored entries : List (Bytes × Fingerprint)} (s : DeltaState)
    (h : ∀ entry ∈ entries, missing stored entry = false) : wantLoop stored s entries = s := by
  induction entries with
  | nil => rfl
  | cons entry entries ih =>
    rw [wantLoop, if_pos (by rw [h entry mem_cons_self]; rfl)]
    exact ih fun entry' hentry' => h entry' (mem_cons_of_mem _ hentry')

/-- Nothing is missing on the other side when it has the same copies. -/
lemma not_missing_of_same {e e' : NodeEngine} (h : Replica c collection e docs)
    (h' : Replica c collection e' docs) (order : MapOrder (Bytes × Fingerprint)) :
    ∀ entry ∈ order.1 (localFingerprints c e collection),
      missing (localFingerprints c e' collection) entry = false := by
  rintro ⟨key, fp⟩ hentry
  obtain ⟨d, hd, hfp⟩ := mem_localFingerprints h ((order.2 _).mem_iff.mp hentry)
  subst hfp
  rw [missing, get_localFingerprints h', hd]
  simp [Fingerprint.differs]

lemma digestResponse_of_same (hx : Replica c collection x.engine docs)
    (hy : Replica c collection y.engine docs) (order : MapOrder (Bytes × Fingerprint))
    (peer : Bytes) :
    digestResponse c order y.engine peer (digestPayload c x.engine collection) = { collection } := by
  unfold digestResponse
  split_ifs
  · rfl
  · rw [remoteFingerprints_digestPayload]
    change (wantLoop (localFingerprints c y.engine collection) (pushLoop y.engine collection
      (localFingerprints c x.engine collection) _ (order.1 (localFingerprints c y.engine collection)))
        (order.1 (localFingerprints c x.engine collection))).response = _
    rw [pushLoop_of_not_missing _ _ _ (not_missing_of_same hy hx order),
      wantLoop_of_not_missing _ (not_missing_of_same hx hy order)]
    rfl

/-- **Nodes that agree exchange nothing.** -/
lemma replica_same (env : ExchangeEnv) (hx : Replica c collection x.engine docs)
    (hy : Replica c collection y.engine docs) (h0 : 0 ∉ collection)
    (hexchange : x.exchange = some { peer, remaining := collection :: rest }) :
    Replica c collection (exchangeNext c env x y).1.1.engine docs ∧
      Replica c collection (exchangeNext c env x y).1.2.engine docs ∧
      (exchangeNext c env x y).1.1.exchange = some { peer, remaining := rest } ∧
      (exchangeNext c env x y).2.Avoids collection := by
  rw [exchangeNext_eq c env y hexchange, digestResponse_of_same hx hy]
  refine ⟨hx.localDigest h0 h0, replica_digested hy h0 h0 x.self, rfl, fun m hm => ?_, nofun⟩
  rcases mem_cons.mp hm with rfl | hm
  · exact not_mem_nil
  · obtain rfl := mem_singleton.mp hm
    exact not_mem_nil

/-- What is assumed of the exchange of the collection: the peer may read it, the hashes tell the
documents apart, the answer is below the size limit, every merge is accepted, and the id of the
fulfilment is new. -/
structure TurnOk (c : Crypto) (collection : Bytes) (env : ExchangeEnv) (x y : NetworkManager) :
    Prop where
  readable : y.engine.canRead collection { nodeId := x.self } = true
  separates : HashSeparates c collection x.engine y.engine
  unlimited : Unlimited c env.order collection x.engine y.engine
  accepted : ∀ merge ∈ (exchangeNext c env x y).2.merges, merge.2 = .ok ()
  new : (y.dedup.noteAndCheckNew env.answer.messageId).1 = true

/-- The documents for the wanted keys. -/
lemma mem_fulfilledDocs {e : NodeEngine} (h : Replica c collection e docs) {keys : List Bytes}
    (hkeys : ∀ key ∈ keys, ∃ d, docs key = some d) {doc : DocEntry} :
    doc ∈ fulfilledDocs e collection keys ↔ doc.key ∈ keys ∧
      ∃ d, docs doc.key = some d ∧ doc.encodedDoc = d.bytes := by
  rw [fulfilledDocs, mem_filterMap]
  constructor
  · rintro ⟨key, hkey, hdoc⟩
    obtain ⟨d, hd⟩ := hkeys key hkey
    rw [getRawEncoded_some h hd] at hdoc
    obtain rfl := Option.some.inj hdoc
    exact ⟨hkey, d, hd, rfl⟩
  · rintro ⟨hkey, d, hd, hbytes⟩
    refine ⟨doc.key, hkey, ?_⟩
    rw [getRawEncoded_some h hd, ← hbytes]
    rfl

/-- The keys of the documents that are pushed. -/
lemma mem_keys_offered {e e' : NodeEngine} (h : Replica c collection e docs)
    (h' : Replica c collection e' docs') (hsep : HashSeparates c collection e e')
    (order : MapOrder (Bytes × Fingerprint)) {key : Bytes} :
    key ∈ (offered e collection (localFingerprints c e' collection)
        (order.1 (localFingerprints c e collection))).map DocEntry.key ↔
      AntiEntropy.Offers Copy.top (docs key) (docs' key) := by
  rw [mem_map]
  constructor
  · rintro ⟨doc, hdoc, rfl⟩
    obtain ⟨d, -, -, hoffers⟩ := (mem_offered h h' hsep order).mp hdoc
    exact hoffers
  · intro hoffers
    obtain ⟨d, hd⟩ := exists_of_offers hoffers
    exact ⟨⟨key, d.bytes⟩, (mem_offered h h' hsep order).mpr ⟨d, hd, rfl, hoffers⟩, rfl⟩

/-- **The exchange of a collection refines the abstract exchange, key by key.** -/
lemma replica_turn (hx : Replica c collection x.engine docs)
    (hy : Replica c collection y.engine docs') (h0 : 0 ∉ collection)
    (ht : collection ≠ kTransitCollection)
    (hexchange : x.exchange = some { peer, remaining := collection :: rest })
    (hok : TurnOk c collection env x y) :
    Replica c collection (exchangeNext c env x y).1.1.engine
        (fun key => (AntiEntropy.exchange Copy.merge Copy.top (docs key) (docs' key)).1) ∧
      Replica c collection (exchangeNext c env x y).1.2.engine
        (fun key => (AntiEntropy.exchange Copy.merge Copy.top (docs key) (docs' key)).2) ∧
      (exchangeNext c env x y).1.1.exchange = some { peer, remaining := rest } := by
  have haccepted := hok.accepted
  rw [exchangeNext_eq c env y hexchange, digestResponse_eq env.order hok.readable hok.unlimited,
    exchangeWith] at haccepted ⊢
  dsimp only at haccepted ⊢
  -- the node merges what the peer offers
  obtain ⟨hdone, hx₂⟩ := replica_mergeDocs (hx.localDigest h0 h0) h0 ht { nodeId := peer }
    env.answer.merge (offered y.engine collection (localFingerprints c x.engine collection)
      (env.order.1 (localFingerprints c y.engine collection))) docs'
    (fun doc hdoc => by
      obtain ⟨d, hd, hbytes, -⟩ := (mem_offered hy hx hok.separates.symm env.order).mp hdoc
      exact ⟨d, hd, hbytes, hy.short _ d hd⟩)
    (fun answer hanswer => haccepted (collection, answer)
      (mem_append_left _ (mem_map_of_mem hanswer)))
  rw [hdone, if_pos rfl]
  rw [hdone, if_pos rfl] at haccepted
  generalize hengine : mergeDocs c collection { nodeId := peer } env.answer.merge
    (x.engine.localDigest c collection).2 (offered y.engine collection
      (localFingerprints c x.engine collection)
        (env.order.1 (localFingerprints c y.engine collection))) = merged at hx₂ haccepted ⊢
  simp only [mem_keys_offered hy hx hok.separates.symm env.order] at hx₂
  refine ⟨hx₂, ?_, rfl⟩
  -- the peer merges what it wants, as the node has it by now
  have hwanted (key : Bytes) : key ∈ wanted (localFingerprints c y.engine collection)
      (env.order.1 (localFingerprints c x.engine collection)) ↔
        AntiEntropy.Offers Copy.top (docs key) (docs' key) :=
    mem_wanted hx hy hok.separates env.order
  generalize wanted (localFingerprints c y.engine collection)
    (env.order.1 (localFingerprints c x.engine collection)) = keys at haccepted hwanted ⊢
  have hy₁ : Replica c collection (y.digested c x.self
      (digestPayload c x.engine collection)).engine docs' := replica_digested hy h0 h0 x.self
  have hnew : ((y.digested c x.self (digestPayload c x.engine collection)).dedup.noteAndCheckNew
      env.answer.messageId).1 = true := by
    rw [dedup_digested]
    exact hok.new
  generalize y.digested c x.self (digestPayload c x.engine collection) = y₁
    at haccepted hy₁ hnew ⊢
  have hown (key : Bytes) (hkey : key ∈ keys) :
      ∃ d, (AntiEntropy.exchange Copy.merge Copy.top (docs key) (docs' key)).1 = some d := by
    obtain ⟨d, hd⟩ := exists_of_offers ((hwanted key).mp hkey)
    rw [AntiEntropy.exchange, hd]
    dsimp only
    split_ifs
    · cases docs' key <;> exact ⟨_, rfl⟩
    · exact ⟨d, rfl⟩
  have hgiven {doc : DocEntry} : doc ∈ fulfilledDocs merged.2 collection keys ↔
      doc.key ∈ keys ∧ ∃ d, (AntiEntropy.exchange Copy.merge Copy.top (docs doc.key)
        (docs' doc.key)).1 = some d ∧ doc.encodedDoc = d.bytes :=
    mem_fulfilledDocs hx₂ hown
  have hkeys (key : Bytes) : key ∈ (fulfilledDocs merged.2 collection keys).map DocEntry.key ↔
      AntiEntropy.Offers Copy.top (docs key) (docs' key) := by
    rw [mem_map, ← hwanted]
    constructor
    · rintro ⟨doc, hdoc, rfl⟩
      exact (hgiven.mp hdoc).1
    · intro hkey
      obtain ⟨d, hd⟩ := hown key hkey
      exact ⟨⟨key, d.bytes⟩, hgiven.mpr ⟨hkey, d, hd, rfl⟩, rfl⟩
  rw [deliver_fulfil] at haccepted ⊢
  dsimp only at haccepted ⊢
  by_cases hdocs : fulfilledDocs merged.2 collection keys = []
  · rw [if_pos hdocs]
    convert hy₁ using 1
    funext key
    refine if_neg fun hoffers => ?_
    have hmem := (hkeys key).mpr hoffers
    rw [hdocs] at hmem
    exact not_mem_nil hmem
  · rw [if_neg hdocs] at haccepted ⊢
    rw [engine_handleOpBroadcast, fulfilment, if_pos hnew]
    rw [if_pos hnew] at haccepted
    obtain ⟨-, hy₂⟩ := replica_mergeDocs hy₁ h0 ht { nodeId := x.self } env.broadcast.merge
      (fulfilledDocs merged.2 collection keys)
      (fun key => (AntiEntropy.exchange Copy.merge Copy.top (docs key) (docs' key)).1)
      (fun doc hdoc => by
        obtain ⟨-, d, hd, hbytes⟩ := hgiven.mp hdoc
        exact ⟨d, hd, hbytes, hx₂.short _ d hd⟩)
      (fun answer hanswer => haccepted (collection, answer)
        (mem_append_right _ (mem_map_of_mem hanswer)))
    simp only [hkeys] at hy₂
    exact hy₂

/-! ## A round -/

/-- The exchange of the collection within a round: what happens around it, and the two nodes when
it begins. -/
def turn (c : Crypto) (collection : Bytes) : (ℕ → ExchangeEnv) → ℕ → NetworkManager →
    NetworkManager → Option (ExchangeEnv × NetworkManager × NetworkManager)
  | _, 0, _, _ => none
  | env, n + 1, x, y =>
    match x.exchange with
    | some { asked := none, remaining := next :: _, .. } =>
      if next = collection then some (env 0, x, y)
      else
        let ((x, y), _) := exchangeNext c (env 0) x y
        turn c collection (fun i => env (i + 1)) n x y
    | _ => none

/-- A collection a round can work on. -/
def Plain (names : List Bytes) : Prop := ∀ name ∈ names, 0 ∉ name ∧ name ≠ kTransitCollection

variable {names : List Bytes}

/-- **Rounds that find nothing to do.**  The loop leaves the collection alone when the nodes agree
about it, and when it does not come to it. -/
lemma replica_loop_same (n : ℕ) (env : ℕ → ExchangeEnv) (hx : Replica c collection x.engine docs)
    (hy : Replica c collection y.engine docs') (h0 : 0 ∉ collection) (hplain : Plain names)
    (hexchange : x.exchange = none ∨ x.exchange = some { peer, remaining := names })
    (hsame : collection ∈ names → docs = docs') :
    Replica c collection (exchangeLoop c env n x y).1.1.engine docs ∧
      Replica c collection (exchangeLoop c env n x y).1.2.engine docs' ∧
      (exchangeLoop c env n x y).2.Avoids collection := by
  induction n generalizing env x y names with
  | zero => exact ⟨hx, hy, nofun, nofun⟩
  | succ n ih =>
    rw [exchangeLoop]
    by_cases hnext : ∃ next rest, names = next :: rest ∧
        x.exchange = some { peer, remaining := next :: rest }
    · obtain ⟨next, rest, rfl, hnext⟩ := hnext
      have hrest : Plain rest := fun name hname => hplain name (mem_cons_of_mem _ hname)
      have hsame' : collection ∈ rest → docs = docs' := fun hmem =>
        hsame (mem_cons_of_mem _ hmem)
      obtain ⟨h0', ht⟩ := hplain next mem_cons_self
      by_cases hne : collection = next
      · subst hne
        obtain rfl := hsame mem_cons_self
        obtain ⟨hx', hy', hexchange', havoids⟩ := replica_same (env 0) hx hy h0 hnext
        obtain ⟨hx'', hy'', havoids'⟩ := ih (fun i => env (i + 1)) hx' hy' hrest
          (Or.inr hexchange') hsame'
        exact ⟨hx'', hy'', havoids.append havoids'⟩
      · obtain ⟨hx', hy', hexchange'⟩ := replica_other (env 0) hx hy h0 hnext hne h0' ht
        obtain ⟨hx'', hy'', havoids'⟩ := ih (fun i => env (i + 1)) hx' hy' hrest hexchange' hsame'
        exact ⟨hx'', hy'', (avoids_exchangeNext hnext hne ht).append havoids'⟩
    · -- the exchange is over
      have hend : x.exchange = none ∨ x.exchange = some { peer, remaining := [] } := by
        refine hexchange.imp_right fun hexchange => ?_
        cases names with
        | nil => exact hexchange
        | cons next rest => exact absurd ⟨next, rest, rfl, hexchange⟩ hnext
      rw [exchangeNext_end c (env 0) y hend]
      obtain ⟨hx', hy', havoids⟩ := ih (x := { x with exchange := none }) (fun i => env (i + 1))
        hx hy hplain (Or.inl rfl) hsame
      exact ⟨hx', hy', havoids⟩

/-- **A round refines the abstract exchange, key by key**, when it comes to the collection. -/
lemma replica_loop (n : ℕ) (env : ℕ → ExchangeEnv) (hx : Replica c collection x.engine docs)
    (hy : Replica c collection y.engine docs') (h0 : 0 ∉ collection) (hplain : Plain names)
    (hnodup : names.Nodup)
    (hexchange : x.exchange = none ∨ x.exchange = some { peer, remaining := names })
    {env' : ExchangeEnv} {x' y' : NetworkManager}
    (hturn : turn c collection env n x y = some (env', x', y'))
    (hok : TurnOk c collection env' x' y') :
    Replica c collection (exchangeLoop c env n x y).1.1.engine
        (fun key => (AntiEntropy.exchange Copy.merge Copy.top (docs key) (docs' key)).1) ∧
      Replica c collection (exchangeLoop c env n x y).1.2.engine
        (fun key => (AntiEntropy.exchange Copy.merge Copy.top (docs key) (docs' key)).2) := by
  induction n generalizing env x y names with
  | zero => cases hturn
  | succ n ih =>
    rw [turn] at hturn
    rcases hexchange with hnone | hexchange
    · rw [hnone] at hturn
      cases hturn
    rw [hexchange] at hturn
    cases names with
    | nil => cases hturn
    | cons next rest =>
      have hrest : Plain rest := fun name hname => hplain name (mem_cons_of_mem _ hname)
      obtain ⟨h0', ht⟩ := hplain next mem_cons_self
      obtain ⟨hnotin, hnodup⟩ := nodup_cons.mp hnodup
      dsimp only at hturn
      by_cases hne : next = collection
      · subst hne
        obtain ⟨rfl, rfl, rfl⟩ : env 0 = env' ∧ x = x' ∧ y = y' := by
          simpa [Prod.ext_iff] using hturn
        obtain ⟨hx', hy', hexchange'⟩ := replica_turn hx hy h0 ht hexchange hok
        obtain ⟨hx'', hy'', -⟩ := replica_loop_same n (fun i => env (i + 1)) hx' hy' h0 hrest
          (Or.inr hexchange') fun hmem => absurd hmem hnotin
        exact ⟨hx'', hy''⟩
      · rw [if_neg hne] at hturn
        obtain ⟨hx', hy', hexchange'⟩ := replica_other (env 0) hx hy h0 hexchange
          (Ne.symm hne) h0' ht
        exact ih (fun i => env (i + 1)) hx' hy' hrest hnodup hexchange' hturn

/-- The collections of an exchange are listed once each, and the transit collection is not one of
them. -/
lemma exchangeCollections_spec (e : NodeEngine) (peer : Bytes) (discovered : List Bytes) :
    (exchangeCollections e peer discovered).Nodup ∧
      ∀ name ∈ exchangeCollections e peer discovered, name ≠ kTransitCollection := by
  unfold exchangeCollections
  refine ⟨(sortBy_perm _).nodup_iff.mpr (nodup_dedup _), fun name hname => ?_⟩
  rw [mem_sortBy, mem_dedup, mem_append, readableCollections, mem_filter,
    mem_filter] at hname
  simp only [Bool.and_eq_true, decide_eq_true_iff] at hname
  rcases hname with ⟨-, hne, -⟩ | ⟨-, ⟨-, hne⟩, -⟩ <;> exact hne

/-- The names of the collections of a round have no NUL byte. -/
def Named (s : NetworkManager × NetworkManager) (r : Round) : Prop :=
  let (x, y) := if r.forward then s else s.swap
  ∀ name ∈ exchangeCollections x.engine y.self r.discovered, 0 ∉ name

/-- A round that comes to the collection and exchanges it under the assumptions of `TurnOk`. -/
def RoundOk (c : Crypto) (collection : Bytes) (s : NetworkManager × NetworkManager) (r : Round) :
    Prop :=
  let (x, y) := if r.forward then s else s.swap
  let names := exchangeCollections x.engine y.self r.discovered
  (∀ name ∈ names, 0 ∉ name) ∧
    ∃ env x' y', turn c collection r.env (names.length + 1)
      (x.startExchange y.self r.discovered) y = some (env, x', y') ∧ TurnOk c collection env x' y'

/-- The copies of two nodes. -/
def Replicas (c : Crypto) (collection : Bytes) (s : NetworkManager × NetworkManager)
    (docs docs' : Bytes → Copy) : Prop :=
  Replica c collection s.1.engine docs ∧ Replica c collection s.2.engine docs'

variable {s : NetworkManager × NetworkManager} {r : Round}

/-- A round settles every key. -/
lemma replicas_round (h : Replicas c collection s docs docs') (h0 : 0 ∉ collection)
    (hok : RoundOk c collection s r) :
    Replicas c collection (round c s r).1
      (fun key => (AntiEntropy.settle Copy.merge Copy.top (docs key, docs' key)).1)
      (fun key => (AntiEntropy.settle Copy.merge Copy.top (docs key, docs' key)).2) := by
  have hexchange : ∀ (x y : NetworkManager) (docs docs' : Bytes → Copy),
      Replica c collection x.engine docs → Replica c collection y.engine docs' →
      (∀ name ∈ exchangeCollections x.engine y.self r.discovered, 0 ∉ name) →
      (∃ env x' y', turn c collection r.env
        ((exchangeCollections x.engine y.self r.discovered).length + 1)
        (x.startExchange y.self r.discovered) y = some (env, x', y') ∧
          TurnOk c collection env x' y') →
      Replicas c collection (exchangeDocuments c r.env r.discovered x y).1
        (fun key => (AntiEntropy.settle Copy.merge Copy.top (docs key, docs' key)).1)
        (fun key => (AntiEntropy.settle Copy.merge Copy.top (docs key, docs' key)).2) := by
    rintro x y docs docs' hx hy hnames ⟨env, x', y', hturn, hok⟩
    obtain ⟨hnodup, hne⟩ := exchangeCollections_spec x.engine y.self r.discovered
    have hloop := replica_loop (x := x.startExchange y.self r.discovered) _ r.env hx hy h0
      (fun name hname => ⟨hnames name hname, hne name hname⟩) hnodup (Or.inr rfl) hturn hok
    simp only [AntiEntropy.exchange_eq_settle Copy.tieMerge] at hloop
    exact hloop
  unfold RoundOk at hok
  unfold round
  cases hforward : r.forward with
  | true =>
    rw [hforward] at hok
    exact hexchange s.1 s.2 docs docs' h.1 h.2 hok.1 hok.2
  | false =>
    rw [hforward] at hok
    exact (hexchange s.2 s.1 docs' docs h.2 h.1 hok.1 hok.2).symm

/-- A round of nodes that agree does nothing. -/
lemma replicas_round_same (h : Replicas c collection s docs docs) (h0 : 0 ∉ collection)
    (hnamed : Named s r) :
    Replicas c collection (round c s r).1 docs docs ∧ (round c s r).2.Avoids collection := by
  have hexchange : ∀ x y : NetworkManager, Replica c collection x.engine docs →
      Replica c collection y.engine docs →
      (∀ name ∈ exchangeCollections x.engine y.self r.discovered, 0 ∉ name) →
      Replicas c collection (exchangeDocuments c r.env r.discovered x y).1 docs docs ∧
        (exchangeDocuments c r.env r.discovered x y).2.Avoids collection := by
    intro x y hx hy hnames
    obtain ⟨-, hne⟩ := exchangeCollections_spec x.engine y.self r.discovered
    obtain ⟨hx', hy', havoids⟩ := replica_loop_same (x := x.startExchange y.self r.discovered)
      ((exchangeCollections x.engine y.self r.discovered).length + 1) r.env hx hy h0
      (fun name hname => ⟨hnames name hname, hne name hname⟩) (Or.inr rfl) fun _ => rfl
    exact ⟨⟨hx', hy'⟩, havoids⟩
  unfold Named at hnamed
  unfold round
  cases hforward : r.forward with
  | true =>
    rw [hforward] at hnamed
    exact hexchange s.1 s.2 h.1 h.2 hnamed
  | false =>
    rw [hforward] at hnamed
    obtain ⟨hs, havoids⟩ := hexchange s.2 s.1 h.2 h.1 hnamed
    exact ⟨hs.symm, havoids⟩

/-! ## Two rounds -/

/-- The rows of a collection hold documents with distinct keys and tags, within the depth the
decoder accepts, and the digest cache is right about them. -/
structure Documents (c : Crypto) (collection : Bytes) (e : NodeEngine) : Prop where
  rows : ∀ key bytes, e.storage.getRaw collection key = .ok bytes → bytes.length < 2 ^ 32 ∧
    ∃ v : CrdtValue, bytes = v.encode ∧ v.WellFormed ∧ v.depth ≤ kMaxDecodeDepth + 1
  fresh : ∀ key, Fresh c e collection key

/-- Such a node is a replica. -/
lemma Documents.replica {e : NodeEngine} (h : Documents c collection e) :
    ∃ docs, Replica c collection e docs := by
  have hcopy : ∀ key, ∃ copy : Copy, (e.storage.getRaw collection key).toOption =
      copy.map StoredDoc.bytes ∧ ∀ d, copy = some d → d.bytes.length < 2 ^ 32 := by
    intro key
    cases hraw : e.storage.getRaw collection key with
    | error st => exact ⟨none, rfl, nofun⟩
    | ok bytes =>
      obtain ⟨hlen, v, rfl, hwf, hdepth⟩ := h.rows key bytes hraw
      have hbytes := StoredDoc.bytes_of hwf hdepth
      refine ⟨some (.of v hwf hdepth), by rw [Option.map_some, hbytes]; rfl, ?_⟩
      rintro d ⟨⟩
      rwa [hbytes]
  choose docs hrows hshort using hcopy
  exact ⟨docs, hrows, hshort, h.fresh⟩

/-- The two nodes have the same rows in a collection. -/
def SameStored (collection : Bytes) (s : NetworkManager × NetworkManager) : Prop :=
  ∀ key, (s.1.engine.storage.getRaw collection key).toOption =
    (s.2.engine.storage.getRaw collection key).toOption

/-- No round of a run sends or writes a document of the collection. -/
def Settled (c : Crypto) (collection : Bytes) (s : NetworkManager × NetworkManager)
    (rounds : List Round) : Prop :=
  (∀ traffic ∈ outputs (round c) s rounds, traffic.Avoids collection) ∧
    ∀ key, ((final (round c) s rounds).1.engine.storage.getRaw collection key).toOption =
        (s.1.engine.storage.getRaw collection key).toOption ∧
      ((final (round c) s rounds).2.engine.storage.getRaw collection key).toOption =
        (s.2.engine.storage.getRaw collection key).toOption

/-- Equal rows are equal copies. -/
lemma Replicas.sameStored_iff (h : Replicas c collection s docs docs') :
    SameStored collection s ↔ ∀ key, docs key = docs' key := by
  refine forall_congr' fun key => ?_
  rw [h.1.rows, h.2.rows]
  refine ⟨fun heq => ?_, fun heq => by rw [heq]⟩
  cases hd : docs key with
  | none =>
    rw [hd] at heq
    exact (Option.map_eq_none_iff.mp heq.symm).symm
  | some d =>
    rw [hd] at heq
    obtain ⟨d', hd', hbytes⟩ := Option.map_eq_some_iff.mp heq.symm
    rw [hd', (StoredDoc.bytes_inj (h.2.short key d' hd')).mp hbytes]

/-- Nodes that agree stay as they are. -/
lemma settled_of_same (h : Replicas c collection s docs docs) (h0 : 0 ∉ collection)
    {rounds : List Round} (hnamed : Guarded (round c) Named s rounds) :
    Settled c collection s rounds := by
  suffices hrun : Replicas c collection (final (round c) s rounds) docs docs ∧
      ∀ traffic ∈ outputs (round c) s rounds, traffic.Avoids collection by
    refine ⟨hrun.2, fun key => ⟨?_, ?_⟩⟩
    · rw [hrun.1.1.rows, h.1.rows]
    · rw [hrun.1.2.rows, h.2.rows]
  induction rounds generalizing s with
  | nil => exact ⟨h, nofun⟩
  | cons r rounds ih =>
    obtain ⟨hs, havoids⟩ := replicas_round_same h h0 hnamed.1
    obtain ⟨hfinal, hrest⟩ := ih hs hnamed.2
    exact ⟨hfinal, forall_mem_cons.mpr ⟨havoids, hrest⟩⟩

/-- **Anti-entropy.**  Two nodes that hold documents of a collection and do nothing else make two
rounds, each started by either of them, in which the collection is exchanged.  They end with the
same bytes in every row, and no further round sends or writes a document, exactly if in every two
copies of a document equal stamps mean equal writes and, unless the copies are equally new, their
merge has the newest stamp of the two. -/
theorem two_rounds_agree_iff (c : Crypto) (collection : Bytes) (h0 : 0 ∉ collection)
    (a b : NetworkManager) (ha : Documents c collection a.engine)
    (hb : Documents c collection b.engine) (r₁ r₂ : Round)
    (hok : Guarded (round c) (RoundOk c collection) (a, b) [r₁, r₂]) :
    (let s := final (round c) (a, b) [r₁, r₂]
    SameStored collection s ∧
      ∀ rounds, Guarded (round c) Named s rounds → Settled c collection s rounds) ↔
    ∀ key bytes bytes' v w, a.engine.storage.getRaw collection key = .ok bytes →
      b.engine.storage.getRaw collection key = .ok bytes' → decode bytes = .ok v →
      decode bytes' = .ok w → StampsAgree v w ∧ (v.maxTimestamp = w.maxTimestamp ∨
        (merge v w).maxTimestamp = max v.maxTimestamp w.maxTimestamp) := by
  obtain ⟨docs, hdocs⟩ := ha.replica
  obtain ⟨docs', hdocs'⟩ := hb.replica
  have h₁ : Replicas c collection (a, b) docs docs' := ⟨hdocs, hdocs'⟩
  have h₂ := replicas_round h₁ h0 hok.1
  have h₃ := replicas_round h₂ h0 hok.2.1
  have hcondition : (∀ key, AntiEntropy.Reconcilable Copy.merge Copy.top (docs key) (docs' key)) ↔
      ∀ key bytes bytes' v w, a.engine.storage.getRaw collection key = .ok bytes →
        b.engine.storage.getRaw collection key = .ok bytes' → decode bytes = .ok v →
        decode bytes' = .ok w → StampsAgree v w ∧ (v.maxTimestamp = w.maxTimestamp ∨
          (merge v w).maxTimestamp = max v.maxTimestamp w.maxTimestamp) := by
    refine forall_congr' fun key => ?_
    rw [Copy.reconcilable_iff]
    constructor
    · intro h bytes bytes' v w hraw hraw' hdecode hdecode'
      obtain ⟨d, hd, rfl⟩ := hdocs.of_getRaw hraw
      obtain ⟨d', hd', rfl⟩ := hdocs'.of_getRaw hraw'
      rw [StoredDoc.decode_bytes (hdocs.short key d hd)] at hdecode
      rw [StoredDoc.decode_bytes (hdocs'.short key d' hd')] at hdecode'
      obtain rfl := Except.ok.inj hdecode
      obtain rfl := Except.ok.inj hdecode'
      exact h d d' hd hd'
    · intro h d d' hd hd'
      exact h _ _ _ _ (hdocs.getRaw_some hd) (hdocs'.getRaw_some hd')
        (StoredDoc.decode_bytes (hdocs.short key d hd))
        (StoredDoc.decode_bytes (hdocs'.short key d' hd'))
  have hagree : SameStored collection (final (round c) (a, b) [r₁, r₂]) ↔
      ∀ key, AntiEntropy.Reconcilable Copy.merge Copy.top (docs key) (docs' key) := by
    refine h₃.sameStored_iff.trans (forall_congr' fun key => ?_)
    exact AntiEntropy.settle_settle_iff Copy.tieMerge (docs key) (docs' key)
  rw [← hcondition, ← hagree]
  refine ⟨And.left, fun hsame => ⟨hsame, fun rounds hrounds => ?_⟩⟩
  have heq := funext (h₃.sameStored_iff.mp hsame)
  have h₄ : Replicas c collection (final (round c) (a, b) [r₁, r₂]) _ _ := h₃
  rw [heq] at h₄
  exact settled_of_same h₄ h0 hrounds

/-! ## Equal stamps -/

/-- Primitives whose hash reads a document from its end. -/
def tailCrypto : Crypto :=
  { sampleCrypto with
    sha256 m := (m.reverse ++ List.replicate 32 0).take 32
    length_sha256 m := by simp }

/-- A document of a third node with one field. -/
def thirdDoc (name : String) (ms : UInt64) (value : Int64) : CrdtValue :=
  .object ⟨ms, 0, [122]⟩ false [(text name, .scalar ⟨ms, 0, [122]⟩ false (.int value))]

/-- A new node with the given id that has merged such a document, and was started again. -/
def holding (c : Crypto) (id : Bytes) (doc : CrdtValue) : NetworkManager where
  engine := { (NodeEngine.mergeRemote { sampleNode with nodeId := id } c { wall := 5000 } (.ok ())
    (text "c") (text "k") doc.encode { nodeId := [122] }).2 with digestCache := [] }

/-- A round started by the first node, in which every merge is accepted. -/
def sampleRound (messageId : Bytes) : Round where
  forward := true
  env _ :=
    { order := ⟨id, fun _ => List.Perm.refl _⟩
      answer := { merge := fun _ => { write := { wall := 5000 } }, messageId }
      broadcast := { merge := fun _ => { write := { wall := 5000 } } } }

/-- What a round of the two nodes needs, for rows that a scan lists. -/
def sampleCheck (c : Crypto) (messageId : Bytes) (s : NetworkManager × NetworkManager) : Bool :=
  let env := (sampleRound messageId).env 0
  let x := s.1.startExchange s.2.self []
  decide (exchangeCollections s.1.engine s.2.self [] = [text "c"]) &&
    s.2.engine.canRead (text "c") { nodeId := s.1.self } &&
    (x.engine.storage.scan (text "c")).all (fun row => (s.2.engine.storage.scan (text "c")).all
      fun row' => decide (row.1 = row'.1 → (c.sha256 row.2).take 8 = (c.sha256 row'.2).take 8 →
        row.2 = row'.2)) &&
    decide ((text "c").length + 32 + pushedBytes (offered s.2.engine (text "c")
      (localFingerprints c x.engine (text "c"))
        (env.order.1 (localFingerprints c s.2.engine (text "c")))) +
      wantedBytes (wanted (localFingerprints c s.2.engine (text "c"))
        (env.order.1 (localFingerprints c x.engine (text "c")))) ≤ kMaxDeltaBytes) &&
    (exchangeNext c env x s.2).2.merges.all (fun merge => decide (merge.2 = .ok ())) &&
    (s.2.dedup.noteAndCheckNew messageId).1

lemma roundOk_sample {messageId : Bytes} (h : sampleCheck c messageId s = true) :
    RoundOk c (text "c") s (sampleRound messageId) := by
  simp only [sampleCheck, Bool.and_eq_true, decide_eq_true_eq, all_eq_true] at h
  obtain ⟨⟨⟨⟨⟨hnames, hread⟩, hsep⟩, hlimit⟩, haccepted⟩, hnew⟩ := h
  have hturn : TurnOk c (text "c") ((sampleRound messageId).env 0)
      (s.1.startExchange s.2.self []) s.2 :=
    ⟨hread, fun key bytes bytes' hrow hrow' => hsep _ (StorageEngine.mem_scan_iff.mpr hrow) _
      (StorageEngine.mem_scan_iff.mpr hrow') rfl, hlimit, haccepted, hnew⟩
  change (∀ name ∈ exchangeCollections s.1.engine s.2.self [], 0 ∉ name) ∧
    ∃ env x' y', turn c (text "c") (sampleRound messageId).env
      ((exchangeCollections s.1.engine s.2.self []).length + 1)
      (s.1.startExchange s.2.self []) s.2 = some (env, x', y') ∧ TurnOk c (text "c") env x' y'
  rw [hnames]
  refine ⟨by decide, _, _, _, ?_, hturn⟩
  unfold turn startExchange
  rw [hnames]
  rfl

/-- Two such rounds. -/
lemma guarded_sample (h₁ : sampleCheck c [1] s = true)
    (h₂ : sampleCheck c [2] (round c s (sampleRound [1])).1 = true) :
    Guarded (round c) (RoundOk c (text "c")) s [sampleRound [1], sampleRound [2]] :=
  ⟨roundOk_sample h₁, roundOk_sample h₂, trivial⟩

/-- Two documents of a third node with the same stamps and different content, one on each of two
nodes: after two rounds the nodes have different rows. -/
theorem equal_stamps_never_agree :
    let s := (holding tailCrypto [110] (thirdDoc "x" 2 1), holding tailCrypto [98] (thirdDoc "x" 2 2))
    Guarded (round tailCrypto) (RoundOk tailCrypto (text "c")) s [sampleRound [1], sampleRound [2]] ∧
      ¬ SameStored (text "c")
        (final (round tailCrypto) s [sampleRound [1], sampleRound [2]]) := by
  have hdiffers : ¬ (((final (round tailCrypto)
      (holding tailCrypto [110] (thirdDoc "x" 2 1), holding tailCrypto [98] (thirdDoc "x" 2 2))
      [sampleRound [1], sampleRound [2]]).1.engine.storage.getRaw (text "c") (text "k")).toOption =
      ((final (round tailCrypto) (holding tailCrypto [110] (thirdDoc "x" 2 1), holding tailCrypto [98] (thirdDoc "x" 2 2))
      [sampleRound [1], sampleRound [2]]).2.engine.storage.getRaw (text "c")
        (text "k")).toOption) := by
    decide +kernel
  exact ⟨guarded_sample (by decide +kernel) (by decide +kernel), fun hsame => hdiffers (hsame _)⟩

/-- The row of such a node. -/
lemma row_holding {id : Bytes} {doc : CrdtValue}
    (hscan : (holding c id doc).engine.storage.scan (text "c") = [(text "k", doc.encode)])
    {key bytes : Bytes} (hrow : (holding c id doc).engine.storage.getRaw (text "c") key = .ok bytes) :
    bytes = doc.encode := by
  rw [← StorageEngine.mem_scan_iff, hscan, mem_singleton] at hrow
  exact (Prod.mk.inj hrow).2

lemma documents_holding {id : Bytes} {doc : CrdtValue}
    (hscan : (holding c id doc).engine.storage.scan (text "c") = [(text "k", doc.encode)])
    (hlen : doc.encode.length < 2 ^ 32) (hwf : doc.WellFormed)
    (hdepth : doc.depth ≤ kMaxDecodeDepth + 1) :
    Documents c (text "c") (holding c id doc).engine :=
  ⟨fun _ _ hrow => ⟨row_holding hscan hrow ▸ hlen, doc, row_holding hscan hrow, hwf, hdepth⟩, nofun⟩

/-- Two nodes with different fields of a document have both after two rounds. -/
theorem two_rounds_agree_disjoint :
    let s := (holding tailCrypto [110] (thirdDoc "y" 1 1), holding tailCrypto [98] (thirdDoc "x" 2 2))
    SameStored (text "c") (final (round tailCrypto) s [sampleRound [1], sampleRound [2]]) := by
  have hscan : (holding tailCrypto [110] (thirdDoc "y" 1 1)).engine.storage.scan (text "c") =
      [(text "k", (thirdDoc "y" 1 1).encode)] := by
    decide +kernel
  have hscan' : (holding tailCrypto [98] (thirdDoc "x" 2 2)).engine.storage.scan (text "c") =
      [(text "k", (thirdDoc "x" 2 2).encode)] := by
    decide +kernel
  refine ((two_rounds_agree_iff tailCrypto (text "c") (by decide) _ _
    (documents_holding hscan (by decide) (by decide) (by decide))
    (documents_holding hscan' (by decide) (by decide) (by decide)) _ _
    (guarded_sample (by decide +kernel) (by decide +kernel))).mpr ?_).1
  intro key bytes bytes' v w hrow hrow' hdecode hdecode'
  obtain rfl := row_holding hscan hrow
  obtain rfl := row_holding hscan' hrow'
  obtain rfl : v = thirdDoc "y" 1 1 := (Except.ok.inj hdecode).symm
  obtain rfl : w = thirdDoc "x" 2 2 := (Except.ok.inj hdecode').symm
  exact ⟨stampsAgree_of_disjoint (by decide), Or.inr (by decide)⟩

end NetworkManager

end DeSentry
