import DeSentry.Construction.Common.Json
import DeSentry.Construction.Common.Status
import DeSentry.Framework.AssocMap

/-!
# The catalog (`storage/catalog.h`)

The metadata of the collections, as far as access control and the choice of a backend read it.
The file behind it is written by `SaveLocked` after every change; whether that works is an
argument, and as in the source the change in memory stays when it does not.

`EffectiveAcl` walks the parent links for at most `kMaxAclParentDepth` steps.  A collection the
catalog does not know has the default list, which is public.
-/

namespace DeSentry

open ByteCodec

/-- `struct CollectionAcl`. -/
structure CollectionAcl where
  /-- The node id of the creator; empty for an unowned collection. -/
  ownerNode : Bytes := []
  isPrivate : Bool := false
  readers : List Bytes := []
  /-- The collection to inherit from when nothing is asserted here. -/
  parent : Bytes := []
  deriving DecidableEq, Repr

namespace CollectionAcl

/-- `AllowsReader`. -/
def allowsReader (acl : CollectionAcl) (nodeId : Bytes) : Bool :=
  if !acl.isPrivate then true
  else if acl.ownerNode ≠ [] ∧ nodeId = acl.ownerNode then true
  else decide (nodeId ∈ acl.readers)

/-- The `asserts_own` of `EffectiveAcl`. -/
def assertsOwn (acl : CollectionAcl) : Bool :=
  acl.isPrivate || decide (acl.ownerNode ≠ []) || decide (acl.readers ≠ [])

/-- `DecodeAcl`.  The same fields are read from a ledger entry and from a peer's record. -/
def decode (v : JsonValue) : CollectionAcl where
  ownerNode := ((v.find (text "owner_node")).bind JsonValue.asString).getD []
  isPrivate := ((v.find (text "private")).bind JsonValue.asBool).getD false
  readers := ((v.find (text "readers")).map JsonValue.items).getD [] |>.filterMap JsonValue.asString
  parent := ((v.find (text "parent")).bind JsonValue.asString).getD []

end CollectionAcl

/-- `struct CollectionMeta`. -/
structure CollectionMeta where
  /-- The backend the collection is bound to; empty for the default one. -/
  engine : Bytes := []
  acl : CollectionAcl := {}
  aclUpdatedMs : UInt64 := 0
  deriving DecidableEq, Repr

/-- `class Catalog`: the map `collections_`. -/
structure Catalog where
  collections : List (Bytes × CollectionMeta) := []
  deriving DecidableEq, Repr

namespace Catalog

variable (cat : Catalog) (name : Bytes)

/-- `GetCopy`. -/
def get : Option CollectionMeta := AssocMap.get cat.collections name

/-- `HasCollection`. -/
def hasCollection : Bool := (cat.get name).isSome

/-- `ListCollections`. -/
def listCollections : List Bytes := cat.collections.map Prod.fst

/-- The map with a changed entry. -/
def insert (entry : CollectionMeta) : Catalog :=
  { cat with collections := AssocMap.set cat.collections name entry }

variable (saved : Except Status Unit)

/-- `UpsertRootPageId`; the page id itself is not part of this model. -/
def upsertRootPageId (name : Bytes) : Except Status Unit × Catalog :=
  (saved, cat.insert name ((cat.get name).getD {}))

/-- The answer for a collection the catalog does not have. -/
def noSuchCollection : Status :=
  ⟨.notFound, text "no such collection: " ++ name⟩

/-- `SetEngine`. -/
def setEngine (name engine : Bytes) : Except Status Unit × Catalog :=
  match cat.get name with
  | none => (.error (noSuchCollection name), cat)
  | some entry =>
    if entry.engine ≠ [] ∧ entry.engine ≠ engine then
      (.error ⟨.invalidArgument, text "collection '" ++ name ++
        text "' is already bound to engine '" ++ entry.engine ++
        text "'; create a new collection to change engines"⟩, cat)
    else (saved, cat.insert name { entry with engine })

/-- `SetAclAt`. -/
def setAclAt (name : Bytes) (acl : CollectionAcl) (updatedMs : UInt64) :
    Except Status Unit × Catalog :=
  match cat.get name with
  | none => (.error (noSuchCollection name), cat)
  | some entry =>
    if acl.parent = name then
      (.error ⟨.invalidArgument, text "acl.parent cannot be the collection itself"⟩, cat)
    else if updatedMs < entry.aclUpdatedMs then
      (.error ⟨.invalidArgument, text "stale ACL version: " ++ decimal updatedMs.toNat ++
        text " < " ++ decimal entry.aclUpdatedMs.toNat⟩, cat)
    else (saved, cat.insert name { entry with acl, aclUpdatedMs := updatedMs })

/-- `kMaxAclParentDepth`. -/
def kMaxAclParentDepth : ℕ := 16

/-- What a parent chain longer than the bound resolves to: a list nobody satisfies, since no node
id contains the byte 1. -/
def deniedAcl : CollectionAcl := { isPrivate := true, ownerNode := 1 :: text "invalid" }

/-- The loop of `EffectiveAcl`. -/
def effectiveAclFrom : ℕ → Bytes → CollectionAcl
  | 0, _ => deniedAcl
  | depth + 1, cursor =>
    match cat.get cursor with
    | none => {}
    | some entry =>
      if entry.acl.parent = [] ∨ entry.acl.assertsOwn then entry.acl
      else effectiveAclFrom depth entry.acl.parent

/-- `EffectiveAcl`. -/
def effectiveAcl : CollectionAcl := cat.effectiveAclFrom kMaxAclParentDepth name

/-- `CanRead`. -/
def canRead (collection nodeId : Bytes) : Bool := (cat.effectiveAcl collection).allowsReader nodeId

/-- `CanWrite`. -/
def canWrite (collection nodeId : Bytes) : Bool :=
  let acl := cat.effectiveAcl collection
  if !acl.isPrivate then true else decide (acl.ownerNode ≠ [] ∧ nodeId = acl.ownerNode)

/-! ## What a change is seen as -/

variable {cat}

lemma get_insert (name : Bytes) (entry : CollectionMeta) (name' : Bytes) :
    (cat.insert name entry).get name' = if name' = name then some entry else cat.get name' :=
  AssocMap.get_set ..

end Catalog

end DeSentry
