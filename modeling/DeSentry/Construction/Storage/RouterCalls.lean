import DeSentry.Construction.Storage.StorageEngine

/-!
# The calls of a router (`storage/router.cpp`)

`Put` and `BindCollection` on one router, with its catalog.  `BindCollection` records the engine of a
collection in the catalog, and every later call looks it up there.

The state carries along which document was acknowledged last for every key.  Nothing of the router
reads that; it is what the results are about.
-/

namespace DeSentry

open ByteCodec

/-- `VendoredBackendOption`, empty for an engine that is not vendored. -/
def vendoredBackendOption (engine : Bytes) : Bytes :=
  if engine = text "sqlite" then text "DESENTRY_WITH_SQLITE"
  else if engine = text "lmdb" then text "DESENTRY_WITH_LMDB"
  else if engine = text "duckdb" then text "DESENTRY_WITH_DUCKDB"
  else if engine = text "sqlite_vec" then text "DESENTRY_WITH_SQLITE_VEC"
  else []

/-- What happens around a `BindCollection`. -/
structure BindEnv where
  /-- `VendoredBackendAvailable`, which depends on how the program was built. -/
  vendored : Bytes → Bool := fun _ => false
  /-- `SaveLocked`, in `UpsertRootPageId` and in `SetEngine`. -/
  savedRoot : Except Status Unit := .ok ()
  savedEngine : Except Status Unit := .ok ()

/-- A router with its catalog, and the documents that were acknowledged last. -/
structure RouterProcess where
  router : StorageRouter
  /-- `catalog_`, which may be null. -/
  catalog : Option Catalog
  acked : Bytes × Bytes → Option Bytes := fun _ => none

namespace RouterProcess

variable (p : RouterProcess)

/-- The engine of a collection. -/
def route (collection : Bytes) : Bytes := p.router.engineNameFor (p.catalog.getD {}) collection

/-- `Get`. -/
def get (collection key : Bytes) : Except Status Bytes :=
  p.router.get (p.catalog.getD {}) collection key

/-- `Put`. -/
def put (refusal : Option Status) (collection key doc : Bytes) :
    Except Status Unit × RouterProcess :=
  let (answer, router) := p.router.put (p.catalog.getD {}) refusal collection key doc
  match answer with
  | .error st => (.error st, { p with router })
  | .ok () => (.ok (), { p with router, acked := Function.update p.acked (collection, key) doc })

/-- `BindCollection`. -/
def bindCollection (env : BindEnv) (collection engine : Bytes) :
    Except Status Unit × RouterProcess :=
  if (AssocMap.get p.router.backends engine).isNone then
    let option := vendoredBackendOption engine
    if option ≠ [] ∧ !env.vendored engine then
      (.error ⟨.invalidArgument, text "engine '" ++ engine ++
        text "' is not compiled into this build (rebuild with -D" ++ option ++ text "=ON)"⟩, p)
    else
      (.error ⟨.invalidArgument, text "engine '" ++ engine ++
        text "' is not in this node's configured engines list"⟩, p)
  else
    match p.catalog with
    | none => (.error ⟨.internal, text "router has no catalog to record the binding in"⟩, p)
    | some catalog =>
      let (created, catalog) := if catalog.hasCollection collection then (.ok (), catalog)
        else catalog.upsertRootPageId env.savedRoot collection
      match created with
      | .error st => (.error st, { p with catalog := some catalog })
      | .ok () =>
        let (answer, catalog) := catalog.setEngine env.savedEngine collection engine
        (answer, { p with catalog := some catalog })

end RouterProcess

/-- A call of the router. -/
inductive RouterCall where
  | put (refusal : Option Status) (collection key doc : Bytes)
  | bindCollection (env : BindEnv) (collection engine : Bytes)

/-- One call. -/
def RouterProcess.step (p : RouterProcess) : RouterCall → RouterProcess × Except Status Unit
  | .put refusal collection key doc => (p.put refusal collection key doc).swap
  | .bindCollection env collection engine => (p.bindCollection env collection engine).swap

end DeSentry
