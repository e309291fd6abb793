import DeSentry.Construction.Net.Gossip

/-!
# Rounds of two nodes

Two nodes whose gossip threads exchange documents with each other and that do nothing else.  A round
is `ExchangeDocuments` of one of them with the other as the peer: the steps of the two nodes in the
order of the messages, collection by collection.  Every message arrives.

Beside the new states a round returns what it did: the messages, and the answer of every
`MergeRemote`, which is the only writer.
-/

namespace DeSentry

open ByteCodec KeyedList

namespace NetworkManager

/-- The answers of the merges of `mergeDocs`. -/
def mergeAnswers (c : Crypto) (collection : Bytes) (who : Requestor) :
    (ℕ → MergeEnv) → NodeEngine → List DocEntry → List (Except Failure Unit)
  | _, _, [] => []
  | env, e, doc :: docs =>
    match e.mergeRemote c (env 0).write (env 0).appended collection doc.key doc.encodedDoc who with
    | (.error .thrown, _) => [.error .thrown]
    | (answer, e) => answer :: mergeAnswers c collection who (fun n => env (n + 1)) e docs

/-- What happens around the exchange of one collection. -/
structure ExchangeEnv where
  order : MapOrder (Bytes × Fingerprint)
  answer : AnswerEnv
  broadcast : BroadcastEnv

/-- What an exchange did. -/
structure Traffic where
  messages : List Outbound := []
  /-- The merges, each with its collection and its answer. -/
  merges : List (Bytes × Except Failure Unit) := []

/-- The fulfilment arrives at the peer. -/
def deliver (c : Crypto) (env : BroadcastEnv) (sender : Bytes) (y : NetworkManager) :
    List Outbound → NetworkManager × Traffic
  | [⟨_, .opBroadcast broadcast, _⟩] =>
    let (y', sent) := y.handleOpBroadcast c env sender broadcast
    (y', {
      messages := sent
      merges := if (y.dedup.noteAndCheckNew broadcast.messageId).1 then
          (mergeAnswers c broadcast.collection { nodeId := sender } env.merge y.engine
            broadcast.docs).map fun answer => (broadcast.collection, answer)
        else [] })
  | _ => (y, {})

/-- The exchange of the next collection, of the node `x` with the node `y`. -/
def exchangeNext (c : Crypto) (env : ExchangeEnv) (x y : NetworkManager) :
    (NetworkManager × NetworkManager) × Traffic :=
  match x.askNext c with
  | (x₁, [⟨peer, .digest digest, catalog⟩]) =>
    let delta := digestResponse c env.order y.engine x.self digest
    let (x₂, given) := x₁.handleAnswer c env.answer (.ok (.deltaResponse delta))
    let (y₂, delivered) := deliver c env.broadcast x.self (y.digested c x.self digest) given
    ((x₂, y₂), {
      messages := ⟨peer, .digest digest, catalog⟩ :: y.handleDigest c env.order x.self digest ::
        given ++ delivered.messages
      merges := (mergeAnswers c digest.collection { nodeId := peer } env.answer.merge x₁.engine
        delta.pushed).map (fun answer => (digest.collection, answer)) ++ delivered.merges })
  | (x₁, messages) => ((x₁, y), { messages })

/-- The loop of `ExchangeDocuments`. -/
def exchangeLoop (c : Crypto) : (ℕ → ExchangeEnv) → ℕ → NetworkManager → NetworkManager →
    (NetworkManager × NetworkManager) × Traffic
  | _, 0, x, y => ((x, y), {})
  | env, n + 1, x, y =>
    let ((x, y), traffic) := exchangeNext c (env 0) x y
    let (s, rest) := exchangeLoop c (fun i => env (i + 1)) n x y
    (s, ⟨traffic.messages ++ rest.messages, traffic.merges ++ rest.merges⟩)

/-- `ExchangeDocuments` of the node `x` with the node `y`: a step for each collection, and one that
ends the exchange. -/
def exchangeDocuments (c : Crypto) (env : ℕ → ExchangeEnv) (discovered : List Bytes)
    (x y : NetworkManager) : (NetworkManager × NetworkManager) × Traffic :=
  exchangeLoop c env ((exchangeCollections x.engine y.self discovered).length + 1)
    (x.startExchange y.self discovered) y

/-- A round: who starts it, and what happens around it. -/
structure Round where
  /-- The first node starts. -/
  forward : Bool
  discovered : List Bytes := []
  env : ℕ → ExchangeEnv

/-- The round of two nodes. -/
def round (c : Crypto) (s : NetworkManager × NetworkManager) (r : Round) :
    (NetworkManager × NetworkManager) × Traffic :=
  if r.forward then exchangeDocuments c r.env r.discovered s.1 s.2
  else
    let (s, traffic) := exchangeDocuments c r.env r.discovered s.2 s.1
    (s.swap, traffic)

end NetworkManager

end DeSentry
