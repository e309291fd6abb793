import DeSentry.Construction.Net.NetworkManager

/-!
# Document exchange (`net/gossip.cpp`) and the node as a system

`ExchangeDocuments` works through the collections a peer may read: it sends the digest of each,
merges what the peer pushes back and sends the documents the peer asks for.  The collections are
chosen once, at the start.  Every request is a round trip to the peer, and other threads run in the
meantime, so an exchange takes several steps: its start, and for each collection the question and
the handling of the answer.

`NetworkManager.step` is the node: one event, the next state, and the messages it sends.
-/

namespace DeSentry

open ByteCodec KeyedList

namespace NetworkManager

variable (net : NetworkManager) (e : NodeEngine) (peer : Bytes) (discovered : List Bytes)

/-! ## An exchange -/

/-- The collections of an exchange, in the order of a `std::set`. -/
def exchangeCollections : List Bytes :=
  let who : Requestor := { nodeId := peer }
  let accepted := discovered.filter fun collection => decide (collection ≠ []) &&
    decide (collection ≠ kTransitCollection) && e.canRead collection who
  sortBy id (e.readableCollections who ++ accepted).dedup

/-- The start of `ExchangeDocuments`. -/
def startExchange : NetworkManager :=
  { net with
    exchange := some { peer, remaining := exchangeCollections net.engine peer discovered } }

variable (c : Crypto)

/-- The digest of a collection, as it is sent. -/
def digestPayload (e : NodeEngine) (collection : Bytes) : DigestPayload where
  collection
  entries := (e.localDigest c collection).1.map fun d => ⟨d.key, d.topTs.encode, d.contentHash⟩

/-- The question for the next collection; without one the exchange is over. -/
def askNext : NetworkManager × List Outbound :=
  match net.exchange with
  | some { peer, asked := none, remaining := collection :: remaining } =>
    ({ net with
      engine := (net.engine.localDigest c collection).2
      exchange := some { peer, asked := some collection, remaining } },
      [net.outbound peer (.digest (digestPayload c net.engine collection))])
  | some { asked := none, remaining := [], .. } => ({ net with exchange := none }, [])
  | _ => (net, [])

/-- What happens around the handling of an answer. -/
structure AnswerEnv where
  merge : ℕ → MergeEnv
  messageId : Bytes := []

/-- The documents for the keys a peer wants; a key that is not found is left out. -/
def fulfilledDocs (collection : Bytes) (keys : List Bytes) : List DocEntry :=
  keys.filterMap fun key => (e.getRawEncoded collection key).toOption.map fun doc => ⟨key, doc⟩

/-- The fulfilment of the keys a peer wants, if there is something to send. -/
def fulfil (messageId peer collection : Bytes) (keys : List Bytes) : List Outbound :=
  let docs := fulfilledDocs net.engine collection keys
  if docs = [] then []
  else [net.outbound peer (.opBroadcast { collection, docs, messageId, ttl := 0 })]

/-- The handling of an answer, or of a request that failed.  An exception from a merge is not
caught in the source and ends the process; here it ends the exchange. -/
def handleAnswer (env : AnswerEnv) (answer : Except Status WireMessage) :
    NetworkManager × List Outbound :=
  match net.exchange with
  | some { peer, asked := some collection, remaining } =>
    match answer with
    | .error _ => ({ net with exchange := none }, [])
    | .ok (.deltaResponse delta) =>
      let (done, engine) :=
        mergeDocs c collection { nodeId := peer } env.merge net.engine delta.pushed
      if !done then ({ net with engine, exchange := none }, [])
      else
        let net := { net with engine, exchange := some { peer, remaining } }
        (net, net.fulfil env.messageId peer collection delta.wantedKeys)
    | .ok _ => ({ net with exchange := some { peer, remaining } }, [])
  | _ => (net, [])

/-! ## The node -/

/-- What can happen to a node. -/
inductive Event where
  | putDocument (env : LocalWriteEnv) (collection key : Bytes) (newJson : JsonValue)
      (who : Requestor)
  | hold (task : HoldTask) (collection key doc messageId : Bytes)
  | opBroadcast (env : BroadcastEnv) (peer : Bytes) (broadcast : OpBroadcastPayload)
  | digest (order : MapOrder (Bytes × Fingerprint)) (peer : Bytes) (digest : DigestPayload)
  | transitQuery (nowMs : Int64) (peer : Bytes) (offset : UInt64)
  | ledgerDigest (start : Option ℕ) (peer : Bytes) (digest : LedgerDigestPayload)
  | exchange (peer : Bytes) (discovered : List Bytes)
  | ask
  | answer (env : AnswerEnv) (answer : Except Status WireMessage)
  | setCollectionAcl (env : NodeEngine.SetAclEnv) (collection : Bytes) (acl : CollectionAcl)
  | applyRemoteAcl (keys : KeyRing) (env : AclEnv) (origin collection : Bytes)
      (envelope : Except Bytes JsonValue) (checkSig : Bool)
  /-- The peer table changes. -/
  | peers (peers : List PeerInfo)

/-- One event. -/
def step (net : NetworkManager) : Event → NetworkManager × List Outbound
  | .putDocument env collection key newJson who =>
    (net.putDocument c env collection key newJson who).2
  | .hold task collection key doc messageId =>
    ({ net with
      engine := (net.engine.holdForOfflineOwner c task.env task.nowMs task.owner collection key doc
        (some task.chunks) messageId).2 }, [])
  | .opBroadcast env peer broadcast => net.handleOpBroadcast c env peer broadcast
  | .digest order peer digest =>
    (net.digested c peer digest, [net.handleDigest c order peer digest])
  | .transitQuery nowMs peer offset => (net, [net.handleTransitQuery nowMs peer offset])
  | .ledgerDigest start peer digest => (net, [net.handleLedgerDigest c start peer digest])
  | .exchange peer discovered => (net.startExchange peer discovered, [])
  | .ask => net.askNext c
  | .answer env answer => net.handleAnswer c env answer
  | .setCollectionAcl env collection acl =>
    ({ net with engine := (net.engine.setCollectionAcl c env collection acl).2 }, [])
  | .applyRemoteAcl keys env origin collection envelope checkSig =>
    ({ net with
      engine := (net.engine.applyRemoteAcl keys env origin collection envelope checkSig).2 }, [])
  | .peers peers => ({ net with peers }, [])

end NetworkManager

end DeSentry
