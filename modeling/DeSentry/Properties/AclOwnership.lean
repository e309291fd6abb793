import DeSentry.Construction.Engine.AclReplication
import DeSentry.Framework.Runs
import DeSentry.Properties.CatalogAcl
import DeSentry.Properties.ReadYourWrites

/-!
# Who may change an access list

`ApplyRemoteAcl` lets a node enter only lists that name the node itself as the owner and carry its
signature.  It does not compare that owner with the one the collection has.  So a list of another
node, properly signed by it, replaces the owner's list as soon as its version is not smaller
(`TakesOver`), and these are the only calls that do (`acl_ownership_iff`).
-/

namespace DeSentry

open ByteCodec

/-- A call of `ApplyRemoteAcl` that checks signatures. -/
structure AclCall where
  env : AclEnv
  origin : Bytes
  collection : Bytes
  envelope : Except Bytes JsonValue

namespace NodeEngine

variable {e : NodeEngine} {keys : KeyRing} {i : AclCall}

/-- One call. -/
def aclStep (keys : KeyRing) (e : NodeEngine) (i : AclCall) : NodeEngine × Except Status Unit :=
  let (answer, e) := e.applyRemoteAcl keys i.env i.origin i.collection i.envelope true
  (e, answer)

/-- The owner, the privacy flag and the readers a collection effectively has. -/
def effectiveAccess (e : NodeEngine) (collection : Bytes) : Bytes × Bool × List Bytes :=
  let acl := e.storage.catalog.effectiveAcl collection
  (acl.ownerNode, acl.isPrivate, acl.readers)

/-- A list that passes every check of the call. -/
def Attested (keys : KeyRing) (e : NodeEngine) (i : AclCall) (envelope : AclEnvelope) : Prop :=
  AclEnvelope.read i.envelope = .ok envelope ∧
    e.checkAttestation keys i.env.wall i.origin i.collection envelope = .ok ()

/-- The call enters a list over the list of another owner. -/
def TakesOver (keys : KeyRing) (e : NodeEngine) (i : AclCall) : Prop :=
  ∃ entry envelope, e.storage.catalog.get i.collection = some entry ∧
    entry.acl.ownerNode ≠ [] ∧ i.origin ≠ entry.acl.ownerNode ∧ Attested keys e i envelope ∧
    envelope.acl.parent ≠ i.collection ∧ entry.aclUpdatedMs ≤ envelope.updatedMs

/-- The call leaves alone every collection that another node owns. -/
def RespectsOwners (keys : KeyRing) (e : NodeEngine) (i : AclCall) : Prop :=
  ∀ collection entry, e.storage.catalog.get collection = some entry →
    entry.acl.ownerNode ≠ [] → i.origin ≠ entry.acl.ownerNode →
    (aclStep keys e i).1.effectiveAccess collection = e.effectiveAccess collection

variable {collection : Bytes} {entry : CollectionMeta}

/-- A list with an owner is not inherited. -/
lemma effectiveAcl_of_owner {catalog : Catalog} (h : catalog.get collection = some entry)
    (howner : entry.acl.ownerNode ≠ []) :
    catalog.effectiveAcl collection = entry.acl := by
  have hown : entry.acl.assertsOwn = true := by
    simp [CollectionAcl.assertsOwn, howner]
  rw [Catalog.effectiveAcl, Catalog.kMaxAclParentDepth, Catalog.effectiveAclFrom, h]
  exact if_pos (Or.inr hown)

variable {envelope : AclEnvelope}

/-- What an attested list says about its owner. -/
lemma ownerNode_of_attested (h : Attested keys e i envelope) :
    envelope.acl.ownerNode = i.origin ∧ i.origin ≠ [] := by
  obtain ⟨-, hcheck⟩ := h
  unfold checkAttestation at hcheck
  split_ifs at hcheck with howner
  rw [not_or, not_not] at howner
  exact ⟨howner.2, howner.2 ▸ howner.1⟩

/-- What a call does to the catalog: nothing, or it enters an attested list. -/
lemma aclStep_cases (keys : KeyRing) (e : NodeEngine) (i : AclCall) :
    ((aclStep keys e i).1 = e ∧ ∀ envelope, ¬ Attested keys e i envelope) ∨
      ∃ envelope, Attested keys e i envelope ∧
        (aclStep keys e i).1 = (e.enterAcl i.env i.collection envelope).2 := by
  unfold aclStep applyRemoteAcl
  cases hread : AclEnvelope.read i.envelope with
  | error st =>
    refine Or.inl ⟨rfl, fun envelope h => ?_⟩
    cases hread.symm.trans h.1
  | ok envelope =>
    dsimp only
    cases hcheck : e.checkAttestation keys i.env.wall i.origin i.collection envelope with
    | error st =>
      refine Or.inl ⟨rfl, fun envelope' h => ?_⟩
      obtain rfl : envelope = envelope' := Except.ok.inj (hread.symm.trans h.1)
      cases hcheck.symm.trans h.2
    | ok => exact Or.inr ⟨envelope, ⟨hread, hcheck⟩, rfl⟩

/-- A list that is entered is seen at its own collection. -/
lemma get_enterAcl {env : AclEnv} {collection' : Bytes}
    (h : e.storage.catalog.get collection = some entry) :
    (e.enterAcl env collection' envelope).2.storage.catalog.get collection =
      if collection' = collection then
        some (StorageEngine.applyAcl collection entry (envelope.acl, envelope.updatedMs))
      else some entry := by
  have hensured := StorageEngine.get_ensureCollection (s := e.storage) env.ensured collection'
  rcases hanswer : e.storage.ensureCollection env.ensured collection' with ⟨st | _, storage⟩
  · rw [hanswer] at hensured
    have hne : collection' ≠ collection := by
      rintro rfl
      rw [StorageEngine.ensureCollection, Catalog.hasCollection, h] at hanswer
      cases hanswer
    rw [if_neg hne, ← h, enterAcl, hanswer]
    exact (hensured collection).trans (if_neg hne)
  · rw [hanswer] at hensured
    have hcatalog : (e.enterAcl env collection' envelope).2.storage.catalog =
        (storage.catalog.setAclAt env.saved collection' envelope.acl envelope.updatedMs).2 := by
      unfold enterAcl
      rw [hanswer]
      dsimp only
      rcases storage.catalog.setAclAt env.saved collection' envelope.acl envelope.updatedMs with
        ⟨st | _, catalog⟩ <;> rfl
    have hentry := (hensured collection').trans (if_pos rfl)
    rw [hcatalog, StorageEngine.get_setAclAt hentry]
    split_ifs with hcoll
    · subst hcoll
      rw [h, Option.getD_some]
    · exact (hensured collection).trans ((if_neg hcoll).trans h)

/-- What a call that enters a list leaves under a collection with an owner. -/
lemma effectiveAccess_enterAcl (h : e.storage.catalog.get collection = some entry)
    (howner : entry.acl.ownerNode ≠ []) (hattested : Attested keys e i envelope) :
    (e.enterAcl i.env i.collection envelope).2.effectiveAccess collection =
      if i.collection = collection ∧ envelope.acl.parent ≠ collection ∧
          entry.aclUpdatedMs ≤ envelope.updatedMs then
        (envelope.acl.ownerNode, envelope.acl.isPrivate, envelope.acl.readers)
      else e.effectiveAccess collection := by
  have hget : (e.enterAcl i.env i.collection envelope).2.storage.catalog.get collection = _ :=
    get_enterAcl h
  have hshow : ∀ m : CollectionMeta, m.acl.ownerNode ≠ [] →
      (e.enterAcl i.env i.collection envelope).2.storage.catalog.get collection = some m →
      (e.enterAcl i.env i.collection envelope).2.effectiveAccess collection =
        (m.acl.ownerNode, m.acl.isPrivate, m.acl.readers) := by
    intro m hm heq
    rw [effectiveAccess, effectiveAcl_of_owner heq hm]
  have hold : e.effectiveAccess collection =
      (entry.acl.ownerNode, entry.acl.isPrivate, entry.acl.readers) := by
    rw [effectiveAccess, effectiveAcl_of_owner h howner]
  have hnew : envelope.acl.ownerNode ≠ [] := by
    obtain ⟨heq, hne⟩ := ownerNode_of_attested hattested
    rw [heq]
    exact hne
  rw [StorageEngine.applyAcl] at hget
  by_cases hcoll : i.collection = collection
  · rw [if_pos hcoll] at hget
    by_cases hkeep : envelope.acl.parent = collection ∨ envelope.updatedMs < entry.aclUpdatedMs
    · rw [if_pos hkeep] at hget
      have hnot : ¬ (i.collection = collection ∧ envelope.acl.parent ≠ collection ∧
          entry.aclUpdatedMs ≤ envelope.updatedMs) := fun hall =>
        hkeep.elim hall.2.1 fun hlt => UInt64.not_lt.mpr hall.2.2 hlt
      rw [if_neg hnot, hold, hshow entry howner hget]
    · rw [if_neg hkeep] at hget
      rw [not_or, UInt64.not_lt] at hkeep
      rw [if_pos ⟨hcoll, hkeep⟩, hshow _ hnew hget]
  · rw [if_neg hcoll] at hget
    rw [if_neg fun hall => hcoll hall.1, hold, hshow entry howner hget]

/-- **A call respects the owners exactly if it does not take over.** -/
lemma respectsOwners_iff (keys : KeyRing) (e : NodeEngine) (i : AclCall) :
    RespectsOwners keys e i ↔ ¬ TakesOver keys e i := by
  obtain ⟨hstep, hnone⟩ | ⟨envelope, hattested, hstep⟩ := aclStep_cases keys e i
  · refine iff_of_true (fun collection entry _ _ _ => by rw [hstep]) ?_
    rintro ⟨-, envelope, -, -, -, hattested, -⟩
    exact hnone envelope hattested
  · constructor
    · rintro hrespects ⟨entry, envelope', hget, howner, horigin, hattested', hentered⟩
      obtain rfl : envelope = envelope' := Except.ok.inj (hattested.1.symm.trans hattested'.1)
      have hsame := hrespects i.collection entry hget howner horigin
      rw [hstep, effectiveAccess_enterAcl hget howner hattested, if_pos ⟨rfl, hentered⟩,
        effectiveAccess, effectiveAcl_of_owner hget howner] at hsame
      exact horigin ((ownerNode_of_attested hattested).1.symm.trans (congrArg Prod.fst hsame))
    · intro hnot collection entry hget howner horigin
      rw [hstep, effectiveAccess_enterAcl hget howner hattested]
      refine if_neg ?_
      rintro ⟨rfl, hentered⟩
      exact hnot ⟨entry, envelope, hget, howner, horigin, hattested, hentered⟩

end NodeEngine

open NodeEngine

/-- **In every sequence of calls the owners are respected exactly if no call takes over.** -/
theorem acl_ownership_iff (keys : KeyRing) (e : NodeEngine) (calls : List AclCall) :
    Runs.Guarded (aclStep keys) (RespectsOwners keys) e calls ↔
      Runs.Guarded (aclStep keys) (fun e i => ¬ TakesOver keys e i) e calls :=
  Runs.guarded_congr (respectsOwners_iff keys) e calls

/-! ## A collection taken over -/

/-- Keys and signatures of a test network: a node's key is its id, and a signature is the text. -/
def sampleKeys : KeyRing where
  publicKey := [110]
  resolve := some id
  deriveNodeId := id
  verify _ message sig := message == sig

/-- A list of the given owner, signed by it. -/
def sampleAclCall (owner : Bytes) (isPrivate : Bool) (ms : UInt64) : AclCall where
  env := { wall := 1000 }
  origin := owner
  collection := text "c"
  envelope := .ok (.object
    [(text "acl", .object [(text "owner_node", .scalar (.str owner)),
      (text "private", .scalar (.bool isPrivate))]),
    (text "updated_ms", .scalar (.int ms.toInt64)),
    (text "sig", .scalar (.str (aclAttestMessage (text "c")
      (canonicalAclJson (fun _ => []) { ownerNode := owner, isPrivate } ms))))])

/-- The node after the owner `o` has made the collection private. -/
def sampleOwned : NodeEngine := (aclStep sampleKeys sampleNode (sampleAclCall (text "o") true 10)).1

/-- Another node signs a list with a later version: the collection is its own, and public. -/
theorem other_node_takes_collection :
    sampleOwned.effectiveAccess (text "c") = (text "o", true, []) ∧
    (aclStep sampleKeys sampleOwned (sampleAclCall (text "p") false 11)).2 = .ok () ∧
    (aclStep sampleKeys sampleOwned (sampleAclCall (text "p") false 11)).1.effectiveAccess
      (text "c") = (text "p", false, []) := by
  decide +kernel

end DeSentry
