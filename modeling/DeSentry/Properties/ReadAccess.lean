import DeSentry.Construction.Net.Gossip
import DeSentry.Framework.Runs
import DeSentry.Properties.CatalogAcl
import DeSentry.Properties.ReadYourWrites

/-!
# Who is sent the bytes of a document

`HandleDigest` asks the catalog before it answers, and so does `ExchangeDocuments` before it starts.
`FanOut` does not: a local write and a relayed broadcast go to every peer, whatever the access list
of the collection says.  Nor does `HandleTransitQuery`, which serves an owner whatever is held for
it.  And an exchange goes on with the collections it has chosen when a list changes under it.

`ReadersOnly` says for each event what has to hold so that only readers are sent documents, and
`outbound_readers_iff` that this is exactly when no step of a run discloses one.  The writes and
merges a step makes itself do not matter: they enter collections into the catalog, but with the
default list, which an unknown collection has anyway (`canRead_putRaw`).
-/

namespace DeSentry

open List

open ByteCodec

/-! ## What a message carries -/

/-- The collections of a document that is broadcast under a collection.  Under the name of the
transit collection the document is an envelope, and carries the document of another one. -/
def broadcastCollections (collection encodedDoc : Bytes) : List Bytes :=
  collection ::
    if collection = kTransitCollection then
      match TransitEnvelope.decode encodedDoc with
      | .ok envelope => [envelope.collection]
      | .error _ => []
    else []

/-- The collections a message carries document bytes of. -/
def WireMessage.carried : WireMessage → List Bytes
  | .deltaResponse p => p.pushed.map fun _ => p.collection
  | .opBroadcast p => p.docs.flatMap fun d => broadcastCollections p.collection d.encodedDoc
  | .transitResponse p => p.entries.map (·.collection)
  | _ => []

/-- A message to another node carries only what that node could read when it was built. -/
def Outbound.Permitted (self : Bytes) (m : Outbound) : Prop :=
  m.peer ≠ self → ∀ collection ∈ m.message.carried, m.catalog.canRead collection m.peer = true

/-! ## Writes change no reader -/

namespace Catalog

variable {cat : Catalog}

/-- An unknown collection has the default list, so entering it with that list is not seen. -/
lemma effectiveAclFrom_insert_default {name : Bytes} (h : cat.get name = none) (depth : ℕ)
    (collection : Bytes) :
    (cat.insert name {}).effectiveAclFrom depth collection =
      cat.effectiveAclFrom depth collection := by
  induction depth generalizing collection with
  | zero => rfl
  | succ depth ih =>
    rw [effectiveAclFrom, effectiveAclFrom, get_insert]
    by_cases hname : collection = name
    · rw [if_pos hname, hname, h]
      exact if_pos (Or.inl rfl)
    · rw [if_neg hname]
      cases cat.get collection with
      | none => rfl
      | some entry =>
        dsimp only
        rw [ih]

end Catalog

namespace StorageEngine

variable {s : StorageEngine}

lemma canRead_ensureCollection (saved : Except Status Unit) (name : Bytes) :
    (s.ensureCollection saved name).2.catalog.canRead = s.catalog.canRead := by
  rw [ensureCollection]
  split_ifs with hhas
  · rfl
  · have hnone : s.catalog.get name = none := by
      rwa [Catalog.hasCollection, Bool.not_eq_true, Option.isSome_eq_false_iff,
        Option.isNone_iff_eq_none] at hhas
    funext collection nodeId
    rw [Catalog.upsertRootPageId, hnone]
    exact congrArg (fun acl => CollectionAcl.allowsReader acl nodeId)
      (Catalog.effectiveAclFrom_insert_default hnone _ collection)

/-- **A write changes no reader.** -/
lemma canRead_putRaw (c : Crypto) (env : PutEnv) (collection key doc : Bytes) :
    (s.putRaw c env collection key doc).2.catalog.canRead = s.catalog.canRead := by
  unfold putRaw
  cases checkPut key doc with
  | error st => rfl
  | ok =>
    cases s.checkQuota env.routerUse key doc with
    | error st => rfl
    | ok =>
      unfold writeRow
      rcases s.wal.append c env.append s.disk
        { type := .kPut, collection, key, documentBytes := doc } with ⟨st | lsn, wal, disk⟩
      · rfl
      · rcases s.router.put s.catalog env.refusal collection key doc with ⟨st | _, router⟩
        · rfl
        · exact canRead_ensureCollection ..

end StorageEngine

namespace NodeEngine

variable {e : NodeEngine} (c : Crypto) (env : WriteEnv)

lemma canRead_writeMerged (collection key : Bytes) (remote : CrdtValue) :
    (e.writeMerged c env collection key remote).2.storage.catalog.canRead =
      e.storage.catalog.canRead := by
  obtain ⟨storage, _, _, _, _, h, hput⟩ := e.writeMerged_eq c env collection key remote
  rw [h]
  rcases hput with rfl | ⟨doc, rfl⟩
  · rfl
  · exact StorageEngine.canRead_putRaw c env.put collection key doc

lemma canRead_mergeDecoded (collection key : Bytes) (remote : CrdtValue) :
    (e.mergeDecoded c env collection key remote).2.storage.catalog.canRead =
      e.storage.catalog.canRead := by
  obtain ⟨clock, -, ⟨st, h⟩ | h⟩ := e.mergeDecoded_cases c env collection key remote
  · rw [h]
  · rw [h, canRead_writeMerged]

/-- A merge changes no reader. -/
lemma canRead_mergeRemote (appended : Except Status Unit) (collection key doc : Bytes)
    (who : Requestor) :
    (e.mergeRemote c env appended collection key doc who).2.storage.catalog.canRead =
      e.storage.catalog.canRead := by
  unfold mergeRemote
  split_ifs
  · rfl
  · cases TransitEnvelope.decode doc <;> rfl
  · rfl
  cases CrdtValue.decode doc with
  | error what => rfl
  | ok remote => exact canRead_mergeDecoded c env collection key remote

end NodeEngine

namespace NetworkManager

variable (c : Crypto) (net : NetworkManager)

lemma canRead_mergeDocs (collection : Bytes) (who : Requestor) (env : ℕ → MergeEnv)
    (e : NodeEngine) (docs : List DocEntry) :
    (mergeDocs c collection who env e docs).2.storage.catalog.canRead =
      e.storage.catalog.canRead := by
  induction docs generalizing env e with
  | nil => rfl
  | cons doc docs ih =>
    have hmerge := NodeEngine.canRead_mergeRemote (e := e) c (env 0).write (env 0).appended
      collection doc.key doc.encodedDoc who
    unfold mergeDocs
    rcases hanswer : e.mergeRemote c (env 0).write (env 0).appended collection doc.key
      doc.encodedDoc who with ⟨(st | _) | _, e'⟩ <;> rw [hanswer] at hmerge
    · exact (ih _ e').trans hmerge
    · exact hmerge
    · exact (ih _ e').trans hmerge

/-! ## When only readers are served -/

/-- The peer is this node, or it can read the collections. -/
def Readable (peer : Bytes) (collections : List Bytes) : Prop :=
  peer ≠ net.self → ∀ collection ∈ collections,
    net.engine.canRead collection { nodeId := peer } = true

/-- The broadcast is new and its merges complete. -/
def Processes (env : BroadcastEnv) (peer : Bytes) (broadcast : OpBroadcastPayload) : Prop:=
  (net.dedup.noteAndCheckNew broadcast.messageId).1 = true ∧
    (mergeDocs c broadcast.collection { nodeId := peer } env.merge net.engine
      broadcast.docs).1 = true

/-- What an event needs so that only readers are sent documents. -/
def ReadersOnly : Event → Prop
  | .putDocument env collection key newJson who =>
    (net.putDocument c env collection key newJson who).1 = .ok () → env.reachable = true →
      ∀ peer ∈ net.fanOutPeers env.queued [], net.Readable peer.nodeId [collection]
  | .opBroadcast env peer broadcast =>
    Processes c net env peer broadcast → broadcast.ttl > 0 →
      ∀ target ∈ net.fanOutPeers env.queued peer, ∀ doc ∈ broadcast.docs,
        net.Readable target.nodeId (broadcastCollections broadcast.collection doc.encodedDoc)
  | .transitQuery nowMs peer offset =>
    ∀ envelope ∈ (pendingFrom net.engine nowMs peer offset).take kMaxEntriesPerResponse,
      net.Readable peer [envelope.collection]
  | .answer env (.ok (.deltaResponse delta)) =>
    ∀ peer collection remaining, net.exchange = some ⟨peer, some collection, remaining⟩ →
      let merged := mergeDocs c collection { nodeId := peer } env.merge net.engine delta.pushed
      merged.1 = true → ∀ doc ∈ fulfilledDocs merged.2 collection delta.wantedKeys,
        net.Readable peer (broadcastCollections collection doc.encodedDoc)
  | _ => True

/-- No message of the step carries what its addressee cannot read. -/
def Discreet (event : Event) : Prop :=
  ∀ m ∈ (step c net event).2, m.Permitted net.self

/-! ## The events one by one -/

variable {c net}

/-- A message that is built when the readers are those of the step's start. -/
lemma permitted_iff_readable {peer : Bytes} {message : WireMessage} {catalog : Catalog}
    (h : catalog.canRead = net.engine.storage.catalog.canRead) :
    Outbound.Permitted net.self ⟨peer, message, catalog⟩ ↔ net.Readable peer message.carried := by
  unfold Outbound.Permitted Readable
  rw [h]
  rfl

/-- A message without documents may go anywhere. -/
lemma permitted_of_carried_nil {m : Outbound} (h : m.message.carried = []) (self : Bytes) :
    m.Permitted self := by
  intro _ collection hmem
  rw [h] at hmem
  exact absurd hmem not_mem_nil

lemma carried_writePayload {collection : Bytes} (hcoll : collection ≠ kTransitCollection)
    (messageId key doc : Bytes) :
    (WireMessage.opBroadcast (writePayload messageId collection key doc)).carried =
      [collection] := by
  simp [WireMessage.carried, writePayload, broadcastCollections, hcoll]

variable (c net) (env : LocalWriteEnv)

/-- What a write sends once it is stamped: the document to every peer, if it is stored and the
node is not isolated. -/
lemma writeAndBroadcast_cases (collection key : Bytes) (newJson : JsonValue)
    (previous : Option CrdtValue) :
    (∃ st net', net.writeAndBroadcast c env collection key newJson previous =
      (.error st, net', [])) ∨
    ∃ doc catalog net', catalog.canRead = net.engine.storage.catalog.canRead ∧
      net.writeAndBroadcast c env collection key newJson previous = (.ok (), net',
        if env.reachable then (net.fanOutPeers env.queued []).map fun peer => ⟨peer.nodeId,
          .opBroadcast (writePayload env.messageId collection key doc), catalog⟩
        else []) := by
  unfold writeAndBroadcast
  rcases hnow : net.engine.now env.write.wall with ⟨e, ts⟩
  have hstorage : e.storage = net.engine.storage := by
    exact (congrArg NodeEngine.storage (Prod.mk.inj hnow).1).symm
  dsimp only
  rcases NodeEngine.updatedDocument previous newJson ts e.tagCounter with ⟨updated, tagCounter⟩
  dsimp only
  have hreaders := StorageEngine.canRead_putRaw (s := e.storage) c env.write.put collection key
    updated.encode
  rcases hanswer : e.storage.putRaw c env.write.put collection key updated.encode with
    ⟨st | _, storage⟩
  · exact Or.inl ⟨_, _, rfl⟩
  · rw [hanswer, hstorage] at hreaders
    refine Or.inr ⟨updated.encode, storage.catalog, ?_⟩
    cases hreach : env.reachable with
    | true => exact ⟨_, hreaders, rfl⟩
    | false => exact ⟨_, hreaders, rfl⟩

/-- **A local write.** -/
lemma discreet_putDocument (collection key : Bytes) (newJson : JsonValue) (who : Requestor) :
    Discreet c net (.putDocument env collection key newJson who) ↔
      ReadersOnly c net (.putDocument env collection key newJson who) := by
  have hrefused : ∀ {failure : Failure} {net' : NetworkManager},
      net.putDocument c env collection key newJson who = (.error failure, net', []) →
      (Discreet c net (.putDocument env collection key newJson who) ↔
        ReadersOnly c net (.putDocument env collection key newJson who)) := by
    intro failure net' h
    unfold Discreet ReadersOnly
    dsimp only [step]
    rw [h]
    exact iff_of_true (fun m hm => absurd hm not_mem_nil) fun hok => by cases hok
  by_cases hcoll : collection = kTransitCollection
  · exact hrefused (by rw [putDocument, if_pos hcoll])
  by_cases hwrite : (!net.engine.canWrite collection who) = true
  · exact hrefused (by rw [putDocument, if_neg hcoll, if_pos hwrite])
  cases hcurrent : net.engine.currentDocument collection key with
  | error failure => exact hrefused (by rw [putDocument, if_neg hcoll, if_neg hwrite, hcurrent])
  | ok previous =>
    have hput : net.putDocument c env collection key newJson who =
        net.writeAndBroadcast c env collection key newJson previous := by
      rw [putDocument, if_neg hcoll, if_neg hwrite, hcurrent]
    rcases writeAndBroadcast_cases c net env collection key newJson previous with
      ⟨st, net', hcase⟩ | ⟨doc, catalog, net', hreaders, hcase⟩
    · exact hrefused (hput.trans hcase)
    unfold Discreet ReadersOnly
    dsimp only [step]
    rw [hput, hcase]
    cases env.reachable with
    | false => exact iff_of_true (fun m hm => absurd hm not_mem_nil) fun _ h => by cases h
    | true =>
      have hmessage : ∀ peer : PeerInfo, Outbound.Permitted net.self ⟨peer.nodeId,
          .opBroadcast (writePayload env.messageId collection key doc), catalog⟩ ↔
          net.Readable peer.nodeId [collection] := by
        intro peer
        rw [permitted_iff_readable hreaders, carried_writePayload hcoll]
      constructor
      · intro h _ _ peer hpeer
        exact (hmessage peer).mp (h _ (mem_map_of_mem hpeer))
      · intro h m hm
        obtain ⟨peer, hpeer, rfl⟩ := mem_map.mp hm
        exact (hmessage peer).mpr (h rfl rfl peer hpeer)

/-- A broadcast carries what its documents carry. -/
lemma readable_broadcast_iff {net : NetworkManager} {peer : Bytes} {payload : OpBroadcastPayload} :
    net.Readable peer (WireMessage.opBroadcast payload).carried ↔ ∀ doc ∈ payload.docs,
      net.Readable peer (broadcastCollections payload.collection doc.encodedDoc) := by
  constructor
  · intro h doc hdoc hpeer collection hcoll
    exact h hpeer collection (mem_flatMap.mpr ⟨doc, hdoc, hcoll⟩)
  · intro h hpeer collection hcoll
    obtain ⟨doc, hdoc, hcoll⟩ := mem_flatMap.mp hcoll
    exact h doc hdoc hpeer collection hcoll

lemma carried_broadcastReply (broadcast : OpBroadcastPayload) :
    (net.broadcastReply c broadcast).carried = [] := by
  unfold broadcastReply
  cases broadcast.docs with
  | nil => rfl
  | cons doc docs =>
    split_ifs <;> rfl

/-- **A received broadcast.** -/
lemma discreet_opBroadcast (env : BroadcastEnv) (peer : Bytes) (broadcast : OpBroadcastPayload) :
    Discreet c net (.opBroadcast env peer broadcast) ↔
      ReadersOnly c net (.opBroadcast env peer broadcast) := by
  unfold Discreet ReadersOnly Processes
  dsimp only [step, handleOpBroadcast]
  rcases net.dedup.noteAndCheckNew broadcast.messageId with ⟨_ | _, dedup⟩
  · refine iff_of_true ?_ fun h => by cases h.1
    intro m hm
    obtain rfl := mem_singleton.mp hm
    exact permitted_of_carried_nil rfl _
  have hreaders := canRead_mergeDocs c broadcast.collection { nodeId := peer } env.merge net.engine
    broadcast.docs
  rcases hmerge : mergeDocs c broadcast.collection { nodeId := peer } env.merge net.engine
    broadcast.docs with ⟨_ | _, engine⟩
  · refine iff_of_true ?_ fun h => by cases h.2
    intro m hm
    obtain rfl := mem_singleton.mp hm
    exact permitted_of_carried_nil rfl _
  rw [hmerge] at hreaders
  have hmessage : ∀ target : PeerInfo, Outbound.Permitted net.self ⟨target.nodeId,
      .opBroadcast { broadcast with ttl := broadcast.ttl - 1 }, engine.storage.catalog⟩ ↔
      ∀ doc ∈ broadcast.docs,
        net.Readable target.nodeId (broadcastCollections broadcast.collection doc.encodedDoc) := by
    intro target
    rw [permitted_iff_readable hreaders, readable_broadcast_iff]
  constructor
  · intro h _ httl target htarget
    refine (hmessage target).mp (h _ (mem_append_left _ ?_))
    rw [relay, if_pos httl]
    exact mem_map_of_mem htarget
  · intro h m hm
    rcases mem_append.mp hm with hm | hm
    · unfold relay at hm
      split_ifs at hm with httl
      · obtain ⟨target, htarget, rfl⟩ := mem_map.mp hm
        exact (hmessage target).mpr (h ⟨rfl, rfl⟩ httl target htarget)
      · exact absurd hm not_mem_nil
    · obtain rfl := mem_singleton.mp hm
      exact permitted_of_carried_nil (carried_broadcastReply ..) _

/-- The answer to a digest is about the collection of the digest. -/
lemma collection_pushLoop (e : NodeEngine) (collection : Bytes)
    (remote : List (Bytes × Fingerprint)) (s : DeltaState) (entries : List (Bytes × Fingerprint)) :
    (pushLoop e collection remote s entries).response.collection = s.response.collection := by
  induction entries generalizing s with
  | nil => rfl
  | cons entry entries ih =>
    unfold pushLoop
    split_ifs
    · exact ih s
    cases e.getRawEncoded collection entry.1 with
    | error st => exact ih s
    | ok doc =>
      dsimp only
      split_ifs
      · rfl
      · exact ih _

lemma response_wantLoop (stored : List (Bytes × Fingerprint)) (s : DeltaState)
    (entries : List (Bytes × Fingerprint)) :
    (wantLoop stored s entries).response.collection = s.response.collection ∧
      (wantLoop stored s entries).response.pushed = s.response.pushed := by
  induction entries generalizing s with
  | nil => exact ⟨rfl, rfl⟩
  | cons entry entries ih =>
    unfold wantLoop
    split_ifs
    · exact ih s
    dsimp only
    split_ifs
    · exact ⟨rfl, rfl⟩
    · exact ih _

/-- **A digest.**  The answer to a peer that cannot read the collection is empty. -/
lemma discreet_digest (order : MapOrder (Bytes × Fingerprint))
    (peer : Bytes) (digest : DigestPayload) : Discreet c net (.digest order peer digest) := by
  intro m hm
  obtain rfl := mem_singleton.mp hm
  intro _ collection hmem
  obtain ⟨doc, hdoc, rfl⟩ := mem_map.mp hmem
  unfold digestResponse at hdoc ⊢
  split_ifs at hdoc ⊢ with hread
  · exact absurd hdoc not_mem_nil
  · rw [(response_wantLoop ..).1, collection_pushLoop]
    rw [Bool.not_eq_true, Bool.not_eq_false'] at hread
    exact hread

/-- **A transit query.** -/
lemma discreet_transitQuery (nowMs : Int64) (peer : Bytes)
    (offset : UInt64) : Discreet c net (.transitQuery nowMs peer offset) ↔
      ReadersOnly c net (.transitQuery nowMs peer offset) := by
  have hmessage : Discreet c net (.transitQuery nowMs peer offset) ↔
      net.Readable peer (WireMessage.transitResponse
        (transitResponse net.engine nowMs peer offset)).carried := by
    unfold Discreet step
    rw [forall_mem_singleton]
    exact permitted_iff_readable rfl
  have hcarried : (WireMessage.transitResponse
      (transitResponse net.engine nowMs peer offset)).carried =
      ((pendingFrom net.engine nowMs peer offset).take kMaxEntriesPerResponse).map
        (·.collection) := by
    exact map_map
  rw [hmessage, hcarried]
  constructor
  · intro h envelope henvelope hpeer
    rw [forall_mem_singleton]
    exact h hpeer _ (mem_map_of_mem henvelope)
  · intro h hpeer collection hcoll
    obtain ⟨envelope, henvelope, rfl⟩ := mem_map.mp hcoll
    exact h envelope henvelope hpeer _ mem_cons_self

lemma carried_handleLedgerDigest (start : Option ℕ) (peer : Bytes) (digest : LedgerDigestPayload) :
    (net.handleLedgerDigest c start peer digest).message.carried = [] := by
  unfold handleLedgerDigest
  rcases ledgerEntriesFor c net.engine start digest with (st | _) | records <;> rfl

variable {c net}

lemma carried_askNext {m : Outbound} (h : m ∈ (net.askNext c).2) : m.message.carried = [] := by
  unfold askNext at h
  rcases hexchange : net.exchange with _ | ⟨peer, _ | asked, _ | ⟨collection, remaining⟩⟩ <;>
    rw [hexchange] at h
  · exact absurd h not_mem_nil
  · exact absurd h not_mem_nil
  · obtain rfl := mem_singleton.mp h
    rfl
  · exact absurd h not_mem_nil
  · exact absurd h not_mem_nil

/-- What an answer that is not a delta makes the node send: nothing. -/
lemma handleAnswer_other {env : AnswerEnv} {answer : Except Status WireMessage}
    (h : ∀ delta, answer ≠ .ok (.deltaResponse delta)) : (net.handleAnswer c env answer).2 = [] := by
  unfold handleAnswer
  rcases net.exchange with _ | ⟨peer, _ | asked, remaining⟩
  · rfl
  · rfl
  rcases answer with st | message
  · rfl
  cases message with
  | deltaResponse delta => exact absurd rfl (h delta)
  | _ => rfl

lemma mem_fulfil {messageId peer collection : Bytes} {keys : List Bytes} {m : Outbound} :
    m ∈ net.fulfil messageId peer collection keys ↔
      fulfilledDocs net.engine collection keys ≠ [] ∧
        m = net.outbound peer (.opBroadcast { collection, messageId, ttl := 0
                                              docs := fulfilledDocs net.engine collection keys }) := by
  unfold fulfil
  dsimp only
  split_ifs with hdocs
  · exact iff_of_false not_mem_nil fun h => h.1 hdocs
  · rw [mem_singleton, and_iff_right hdocs]

variable (c net)

/-- **The answer of a peer in an exchange.** -/
lemma discreet_answer (env : AnswerEnv)
    (delta : DeltaResponsePayload) : Discreet c net (.answer env (.ok (.deltaResponse delta))) ↔
      ReadersOnly c net (.answer env (.ok (.deltaResponse delta))) := by
  unfold Discreet ReadersOnly
  dsimp only [step, handleAnswer]
  rcases net.exchange with _ | ⟨peer, _ | collection, remaining⟩
  · exact iff_of_true (fun m hm => absurd hm not_mem_nil) fun _ _ _ h => by cases h
  · exact iff_of_true (fun m hm => absurd hm not_mem_nil) fun _ _ _ h => by cases h
  have hreaders := canRead_mergeDocs c collection { nodeId := peer } env.merge net.engine
    delta.pushed
  dsimp only
  rcases hmerge : mergeDocs c collection { nodeId := peer } env.merge net.engine delta.pushed with
    ⟨_ | _, engine⟩
  · refine iff_of_true (fun m hm => absurd hm not_mem_nil) ?_
    rintro _ _ _ ⟨⟩ hdone
    rw [hmerge] at hdone
    cases hdone
  rw [hmerge] at hreaders
  constructor
  · rintro h _ _ _ ⟨⟩ -
    rw [hmerge]
    intro doc hdoc
    have hsent := h _ (mem_fulfil.mpr ⟨ne_nil_of_mem hdoc, rfl⟩)
    exact readable_broadcast_iff.mp ((permitted_iff_readable hreaders).mp hsent) doc hdoc
  · intro h m hm
    obtain ⟨-, rfl⟩ := mem_fulfil.mp hm
    refine (permitted_iff_readable hreaders).mpr (readable_broadcast_iff.mpr fun doc hdoc => ?_)
    have hall := h peer collection remaining rfl
    rw [hmerge] at hall
    exact hall rfl doc hdoc

/-- **One event.** -/
lemma discreet_iff (event : Event) :
    Discreet c net event ↔ ReadersOnly c net event := by
  have hnothing : ∀ {event : Event}, (step c net event).2 = [] → Discreet c net event := by
    intro event h m hm
    rw [h] at hm
    exact absurd hm not_mem_nil
  cases event with
  | putDocument env collection key newJson who => exact discreet_putDocument ..
  | opBroadcast env peer broadcast => exact discreet_opBroadcast ..
  | transitQuery nowMs peer offset => exact discreet_transitQuery ..
  | digest order peer digest => exact iff_of_true (discreet_digest c net order peer digest) trivial
  | ledgerDigest start peer digest =>
    refine iff_of_true ?_ trivial
    intro m hm
    obtain rfl := mem_singleton.mp hm
    exact permitted_of_carried_nil (carried_handleLedgerDigest ..) _
  | ask => exact iff_of_true (fun m hm => permitted_of_carried_nil (carried_askNext hm) _) trivial
  | answer env answer =>
    rcases answer with st | message
    · exact iff_of_true (hnothing (handleAnswer_other fun _ h => by cases h)) trivial
    cases message with
    | deltaResponse delta => exact discreet_answer ..
    | _ => exact iff_of_true (hnothing (handleAnswer_other fun _ h => by cases h)) trivial
  | _ => exact iff_of_true (hnothing rfl) trivial

end NetworkManager

open NetworkManager

/-- **In every run of a node, whatever happens to it, no step discloses a document to a node that
cannot read it exactly if every step meets `ReadersOnly`.** -/
theorem outbound_readers_iff (c : Crypto) (net : NetworkManager) (events : List Event) :
    Runs.Guarded (step c) (Discreet c) net events ↔
      Runs.Guarded (step c) (ReadersOnly c) net events :=
  Runs.guarded_congr (discreet_iff c) net events

/-! ## Documents sent to strangers -/

/-- A catalog with a private collection of the node `n` that has no readers. -/
def samplePrivateCatalog : Catalog where
  collections := [(text "c", { acl := { ownerNode := [110], isPrivate := true } })]

/-- The node that owns the collection, with one peer. -/
def samplePrivateNet : NetworkManager where
  engine :=
    { sampleNode with storage := { sampleNode.storage with catalog := samplePrivateCatalog } }
  peers := [{ nodeId := text "p", p2pPort := 7000 }]

/-- The node's own write to its private collection. -/
def samplePrivateWrite : Event :=
  .putDocument { write := { wall := 5000 }, messageId := text "m" } (text "c") (text "k")
    (.object [(text "a", .scalar (.bool true))]) { nodeId := [110], isLocal := true }

/-- The write is pushed to the peer, which may not read the collection, and to which a digest of
the collection would be answered with nothing. -/
theorem private_write_is_broadcast :
    samplePrivateNet.engine.canRead (text "c") { nodeId := text "p" } = false ∧
    ((step sampleCrypto samplePrivateNet samplePrivateWrite).2.map fun m =>
      (m.peer, m.message.carried, m.catalog.canRead (text "c") m.peer)) =
        [(text "p", [text "c"], false)] := by
  decide +kernel

end DeSentry
