import DeSentry.Construction.Storage.StorageEngine

/-!
# What the storage engine shows

The rows of the engine are seen through `GetRaw`.  It depends on the catalog only through the
engine each collection is bound to, and neither `EnsureCollection` nor `SetAclAt` changes a
binding (`engineNameFor_insert`), so a row can be read wherever it was put: `get_put` says what the
router shows after a `Put`, and `getRaw_putRaw` what the engine shows after a `PutRaw` that
returned OK.
-/

namespace DeSentry

open ByteCodec

namespace StorageRouter

variable {router : StorageRouter} {catalog catalog' : Catalog} {refusal : Option Status}
  {collection key doc : Bytes}

/-- The binding of a collection is the engine of its entry. -/
lemma engineNameFor_congr (h : ((catalog'.get collection).getD {}).engine =
    ((catalog.get collection).getD {}).engine) :
    router.engineNameFor catalog' collection = router.engineNameFor catalog collection := by
  have heq : ∀ cat : Catalog, router.engineNameFor cat collection =
      if ((cat.get collection).getD {}).engine ≠ [] then ((cat.get collection).getD {}).engine
      else router.defaultEngine := by
    intro cat
    rw [engineNameFor]
    cases cat.get collection <;> rfl
  rw [heq, heq, h]

/-- An entry with an unchanged engine changes no binding. -/
lemma engineNameFor_insert {name : Bytes} {entry : CollectionMeta}
    (h : entry.engine = ((catalog.get name).getD {}).engine) (collection : Bytes) :
    router.engineNameFor (catalog.insert name entry) collection =
      router.engineNameFor catalog collection := by
  refine engineNameFor_congr ?_
  rw [Catalog.get_insert]
  split_ifs with hname
  · rw [hname]
    exact h
  · rfl

/-- `Get` sees the catalog only through the bindings. -/
lemma get_congr (h : router.engineNameFor catalog' collection =
    router.engineNameFor catalog collection) (key : Bytes) :
    router.get catalog' collection key = router.get catalog collection key := by
  rw [get, get, backendFor, backendFor, h]

lemma put_cases (router : StorageRouter) (catalog : Catalog) (refusal : Option Status)
    (collection key doc : Bytes) :
    (∃ st, router.put catalog refusal collection key doc = (.error st, router)) ∨
      ∃ rows, router.backendFor catalog collection = some rows ∧ refusal = none ∧
        router.put catalog refusal collection key doc = (.ok (), { router with
          backends := AssocMap.set router.backends (router.engineNameFor catalog collection)
            (AssocMap.set rows (collection, key) doc) }) := by
  unfold put
  cases hrows : router.backendFor catalog collection with
  | none => exact Or.inl ⟨_, rfl⟩
  | some rows =>
    cases refusal with
    | some st => exact Or.inl ⟨st, rfl⟩
    | none => exact Or.inr ⟨rows, rfl, rfl, rfl⟩

@[simp] lemma defaultEngine_put :
    (router.put catalog refusal collection key doc).2.defaultEngine = router.defaultEngine := by
  rcases put_cases router catalog refusal collection key doc with ⟨st, h⟩ | ⟨rows, -, -, h⟩ <;>
    rw [h]

@[simp] lemma engineNameFor_put (catalog' : Catalog) (collection' : Bytes) :
    (router.put catalog refusal collection key doc).2.engineNameFor catalog' collection' =
      router.engineNameFor catalog' collection' := by
  rw [engineNameFor, engineNameFor, defaultEngine_put]

/-- What the router shows after a `Put` that returned OK. -/
lemma get_put (h : (router.put catalog refusal collection key doc).1 = .ok ())
    (collection' key' : Bytes) :
    (router.put catalog refusal collection key doc).2.get catalog collection' key' =
      if (collection', key') = (collection, key) then .ok doc
      else router.get catalog collection' key' := by
  rcases put_cases router catalog refusal collection key doc with ⟨st, hput⟩ | ⟨rows, hrows, -, hput⟩
  · rw [hput] at h
    cases h
  · have hname : (router.put catalog refusal collection key doc).2.engineNameFor catalog
        collection' = router.engineNameFor catalog collection' := engineNameFor_put ..
    rw [hput] at hname ⊢
    rw [get, backendFor, hname, AssocMap.get_set]
    by_cases hengine : router.engineNameFor catalog collection' =
        router.engineNameFor catalog collection
    · have hrows' : router.backendFor catalog collection' = some rows := by
        rw [backendFor, hengine]
        exact hrows
      rw [if_pos hengine, get, hrows']
      dsimp only
      rw [AssocMap.get_set]
      split_ifs <;> rfl
    · rw [if_neg hengine, if_neg fun heq => hengine (by rw [(Prod.mk.inj heq).1])]
      rfl

end StorageRouter

namespace StorageEngine

variable {s s' : StorageEngine} {collection key doc : Bytes}

/-- `EnsureCollection` touches the catalog only, and no binding. -/
lemma getRaw_ensureCollection (saved : Except Status Unit) (name collection key : Bytes) :
    (s.ensureCollection saved name).2.getRaw collection key = s.getRaw collection key := by
  rw [ensureCollection]
  split_ifs
  · rfl
  · exact StorageRouter.get_congr (StorageRouter.engineNameFor_insert rfl collection) key

lemma length_of_checkPut (h : checkPut key doc = .ok ()) : doc.length ≤ kMaxDocBytes := by
  by_contra hlen
  rw [checkPut, if_pos (Nat.lt_of_not_le hlen)] at h
  split_ifs at h

variable {c : Crypto} {env : PutEnv}

/-- A `PutRaw` that returns OK has logged the write and put the row. -/
lemma putRaw_eq_ok (h : s.putRaw c env collection key doc = (.ok (), s')) :
    checkPut key doc = .ok () ∧ ∃ lsn wal disk router,
      s.wal.append c env.append s.disk { type := .kPut, collection, key, documentBytes := doc } =
        (.ok lsn, wal, disk) ∧
      s.router.put s.catalog env.refusal collection key doc = (.ok (), router) ∧
      s' = (ensureCollection { s with wal, disk, router } env.saved collection).2 := by
  unfold putRaw at h
  cases hcheck : checkPut key doc with
  | error st =>
    rw [hcheck] at h
    cases h
  | ok =>
    cases hquota : s.checkQuota env.routerUse key doc with
    | error st =>
      rw [hcheck, hquota] at h
      cases h
    | ok =>
      rw [hcheck, hquota] at h
      change s.writeRow c env collection key doc = _ at h
      unfold writeRow at h
      rcases happend : s.wal.append c env.append s.disk
        { type := .kPut, collection, key, documentBytes := doc } with ⟨st | lsn, wal, disk⟩
      · rw [happend] at h
        cases h
      · rcases hput : s.router.put s.catalog env.refusal collection key doc with ⟨st | u, router⟩
        · rw [happend, hput] at h
          cases h
        · rw [happend, hput] at h
          exact ⟨rfl, lsn, wal, disk, router, rfl, rfl, (Prod.mk.inj h).2.symm⟩

/-- What the engine shows after a `PutRaw` that returned OK. -/
lemma getRaw_putRaw (h : s.putRaw c env collection key doc = (.ok (), s'))
    (collection' key' : Bytes) :
    s'.getRaw collection' key' =
      if (collection', key') = (collection, key) then .ok doc else s.getRaw collection' key' := by
  obtain ⟨-, lsn, wal, disk, router, -, hput, rfl⟩ := putRaw_eq_ok h
  obtain rfl : (s.router.put s.catalog env.refusal collection key doc).2 = router := by rw [hput]
  rw [getRaw_ensureCollection]
  exact StorageRouter.get_put (by rw [hput]) collection' key'

/-- A `PutRaw` that fails leaves the rows alone. -/
lemma getRaw_putRaw_of_error {st : Status}
    (h : s.putRaw c env collection key doc = (.error st, s')) (collection' key' : Bytes) :
    s'.getRaw collection' key' = s.getRaw collection' key' := by
  unfold putRaw at h
  cases hcheck : checkPut key doc with
  | error st =>
    rw [hcheck] at h
    obtain rfl := (Prod.mk.inj h).2
    rfl
  | ok =>
    cases hquota : s.checkQuota env.routerUse key doc with
    | error st =>
      rw [hcheck, hquota] at h
      obtain rfl := (Prod.mk.inj h).2
      rfl
    | ok =>
      rw [hcheck, hquota] at h
      change s.writeRow c env collection key doc = _ at h
      unfold writeRow at h
      rcases happend : s.wal.append c env.append s.disk
        { type := .kPut, collection, key, documentBytes := doc } with ⟨st | lsn, wal, disk⟩
      · rw [happend] at h
        obtain rfl := (Prod.mk.inj h).2
        rfl
      · rcases hput : s.router.put s.catalog env.refusal collection key doc with ⟨st | u, router⟩
        · rw [happend, hput] at h
          obtain rfl := (Prod.mk.inj h).2
          rfl
        · rw [happend, hput] at h
          cases h

end StorageEngine

end DeSentry
