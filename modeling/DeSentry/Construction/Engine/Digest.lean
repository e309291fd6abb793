import DeSentry.Construction.Engine.NodeEngine

/-!
# Lists and digests (`engine/node_engine.cpp`)

The list of a collection's documents, and what a node offers to anti-entropy: the collections a peer
may read, a fingerprint of each stored document, and the stored bytes themselves.  A fingerprint is taken from the digest cache if it has
one, whatever the row holds by now; `NoteDigest` and the loop here are the only writers of the
cache.
-/

namespace DeSentry

open ByteCodec KeyedList

/-- `StorageRouter::Scan` from the beginning and without a limit: the rows of a collection in the
order of their keys. -/
def StorageRouter.scan (router : StorageRouter) (catalog : Catalog) (collection : Bytes) :
    List (Bytes × Bytes) :=
  match router.backendFor catalog collection with
  | none => []
  | some rows =>
    let keys := ((rows.filter fun row => decide (row.1.1 = collection)).map (·.1.2)).dedup
    (sortBy id keys).filterMap fun key =>
      (AssocMap.get rows (collection, key)).map fun doc => (key, doc)

/-- `StorageEngine::Scan` from the beginning and without a limit. -/
def StorageEngine.scan (s : StorageEngine) (collection : Bytes) : List (Bytes × Bytes) :=
  s.router.scan s.catalog collection

/-- `StorageEngine::Scan`: the rows from a key on, at most `limit` of them unless that is 0. -/
def StorageEngine.scanFrom (s : StorageEngine) (collection startKey : Bytes) (limit : UInt64) :
    List (Bytes × Bytes) :=
  let rows := (s.scan collection).filter fun row => decide (startKey ≤ row.1)
  if limit = 0 then rows else rows.take limit.toNat

namespace NodeEngine

variable (e : NodeEngine)

/-- `ReadableCollections`. -/
def readableCollections (who : Requestor) : List Bytes :=
  e.storage.catalog.listCollections.filter fun name =>
    decide (name ≠ kTransitCollection) && e.canRead name who

/-- The loop of `ListDocuments` over the rows of a scan, with the number of documents found so far.
A row that does not decode throws; deleted documents are left out. -/
def listLoop (limit : UInt64) : ℕ → List (Bytes × Bytes) →
    Except Failure (List (Bytes × JsonValue))
  | _, [] => .ok []
  | found, (key, bytes) :: rows =>
    match CrdtValue.decode bytes with
    | .error _ => .error .thrown
    | .ok doc =>
      if doc.isEmpty then listLoop limit found rows
      else if limit ≠ 0 ∧ found + 1 ≥ limit.toNat then .ok [(key, doc.toJson)]
      else (listLoop limit (found + 1) rows).map ((key, doc.toJson) :: ·)

/-- `ListDocuments`; more rows are fetched than asked for, since some may be deleted. -/
def listDocuments (collection startKey : Bytes) (limit : UInt64) (who : Requestor) :
    Except Failure (List (Bytes × JsonValue)) :=
  if !e.canRead collection who then .ok []
  else
    let fetchLimit := if limit = 0 then 0 else limit * 2 + 16
    listLoop limit 0 (e.storage.scanFrom collection startKey fetchLimit)

/-- The loop of `LocalDigest` over the rows of a scan: the digest, and the cache with the entries
that were missing.  A row that is not cached and does not decode is skipped. -/
def fillDigest (c : Crypto) (collection : Bytes) :
    List (Bytes × DigestEntryOut) → List (Bytes × Bytes) →
      List DigestEntryOut × List (Bytes × DigestEntryOut)
  | cache, [] => ([], cache)
  | cache, (key, bytes) :: rows =>
    match AssocMap.get cache (digestCacheKey collection key) with
    | some entry =>
      let (out, cache) := fillDigest c collection cache rows
      (entry :: out, cache)
    | none =>
      match digestEntry c key bytes with
      | none => fillDigest c collection cache rows
      | some entry =>
        let (out, cache) := fillDigest c collection
          (AssocMap.set cache (digestCacheKey collection key) entry) rows
        (entry :: out, cache)

/-- `LocalDigest`. -/
def localDigest (c : Crypto) (collection : Bytes) : List DigestEntryOut × NodeEngine :=
  let (out, digestCache) := fillDigest c collection e.digestCache (e.storage.scan collection)
  (out, { e with digestCache })

/-- `GetRawEncoded`: a key the point lookup does not find is looked for in a scan. -/
def getRawEncoded (collection key : Bytes) : Except Status Bytes :=
  match e.storage.getRaw collection key with
  | .ok bytes => .ok bytes
  | .error st =>
    if st.code ≠ .notFound then .error st
    else
      match (e.storage.scan collection).find? fun row => decide (row.1 = key) with
      | some row => .ok row.2
      | none => .error st

end NodeEngine

end DeSentry
