import DeSentry.Properties.AclOwnership
import DeSentry.Properties.LedgerReplay

/-!
# Whether access lists converge

A list is entered through `ApplyRemoteAcl`, through `SetAclAt` directly, or by the replay of the
ledger at boot.  All three make the same of the entry of its collection (`EntersAcl.get`): a list
whose version is at least the one in force replaces it.  So after a set of lists has been applied,
in whatever order and however often, the list in force is one with the largest version
(`foldl_applyAcl`).

Versions are milliseconds, and two lists can have the same one.  Then the last to arrive stays, and
two nodes that receive them in different orders keep different lists.  `acl_converges_iff` says
that this is the only way in which a set of lists can fail to converge.
-/

namespace DeSentry

open ByteCodec StorageEngine List

/-- A list with its version. -/
abbrev AclRecord := CollectionAcl × UInt64

/-- The list of an entry with its version. -/
def CollectionMeta.version (entry : CollectionMeta) : AclRecord := (entry.acl, entry.aclUpdatedMs)

/-! ## Entering a list -/

namespace NodeEngine

variable {e e' : NodeEngine} {name : Bytes} {m : AclRecord}

/-- The entry of a collection; without one, the default. -/
def entry (e : NodeEngine) (name : Bytes) : CollectionMeta := (e.storage.catalog.get name).getD {}

/-- The node enters a list for the collection. -/
inductive EntersAcl (name : Bytes) (m : AclRecord) (e : NodeEngine) : NodeEngine → Prop
  /-- `ApplyRemoteAcl` returns OK. -/
  | remote (keys : KeyRing) (i : AclCall) (sig : Bytes) (hname : i.collection = name)
      (hread : AclEnvelope.read i.envelope = .ok ⟨m.1, m.2, sig⟩)
      (hok : (aclStep keys e i).2 = .ok ()) : EntersAcl name m e (aclStep keys e i).1
  /-- `SetAclAt` on a collection the catalog has. -/
  | set (saved : Except Status Unit) (hhas : (e.storage.catalog.get name).isSome = true) :
      EntersAcl name m e { e with
        storage := { e.storage with
          catalog := (e.storage.catalog.setAclAt saved name m.1 m.2).2 } }
  /-- The replay of a record of the ledger. -/
  | replay (env : DeSentry.ReplayEnv) (r : WalRecord) (hname : r.collection = name)
      (hread : aclMessage env r = some m) :
      EntersAcl name m e { e with storage := e.storage.replayAcl env r }

/-- A call that returns OK has entered the list of its envelope. -/
lemma aclStep_ok {keys : KeyRing} {i : AclCall} (h : (aclStep keys e i).2 = .ok ()) :
    ∃ envelope, AclEnvelope.read i.envelope = .ok envelope ∧
      (e.enterAcl i.env i.collection envelope).1 = .ok () ∧
      (aclStep keys e i).1 = (e.enterAcl i.env i.collection envelope).2 := by
  unfold aclStep applyRemoteAcl at h ⊢
  cases hread : AclEnvelope.read i.envelope with
  | error st =>
    rw [hread] at h
    cases h
  | ok envelope =>
    rw [hread] at h
    dsimp only at h ⊢
    cases hcheck : e.checkAttestation keys i.env.wall i.origin i.collection envelope with
    | error st =>
      rw [hcheck] at h
      cases h
    | ok =>
      rw [hcheck] at h
      exact ⟨envelope, rfl, h, rfl⟩

/-- What a list that is entered makes of the entry of its collection. -/
lemma get_enterAcl_self {env : AclEnv} {envelope : AclEnvelope}
    (h : (e.enterAcl env name envelope).1 = .ok ()) :
    (e.enterAcl env name envelope).2.storage.catalog.get name =
      some (applyAcl name (e.entry name) (envelope.acl, envelope.updatedMs)) := by
  have hensured := get_ensureCollection (s := e.storage) env.ensured name name
  rw [if_pos rfl] at hensured
  unfold enterAcl at h ⊢
  rcases hanswer : e.storage.ensureCollection env.ensured name with ⟨st | _, storage⟩ <;>
    rw [hanswer] at h hensured
  · cases h
  · have hset := get_setAclAt hensured env.saved envelope.acl envelope.updatedMs name
    rw [if_pos rfl] at hset
    dsimp only
    rcases hentered : storage.catalog.setAclAt env.saved name envelope.acl envelope.updatedMs with
      ⟨st | _, catalog⟩ <;> rw [hentered] at hset <;> exact hset

/-- **All ways of entering a list are the same.** -/
lemma EntersAcl.get (h : EntersAcl name m e e') :
    e'.storage.catalog.get name = some (applyAcl name (e.entry name) m) := by
  cases h with
  | remote keys i sig hname hread hok =>
    obtain ⟨envelope, hread', hentered, hstate⟩ := aclStep_ok hok
    obtain rfl : ⟨m.1, m.2, sig⟩ = envelope := Except.ok.inj (hread.symm.trans hread')
    subst hname
    rw [hstate]
    exact get_enterAcl_self hentered
  | set saved hhas =>
    obtain ⟨entry, hentry⟩ := Option.isSome_iff_exists.mp hhas
    have hset := get_setAclAt hentry saved m.1 m.2 name
    rw [if_pos rfl] at hset
    rw [NodeEngine.entry, hentry]
    exact hset
  | replay env r hname hread =>
    have hkeyed := keyed_replayAcl env e.storage r name
    dsimp only at hkeyed
    rw [if_pos hname, hread, hname] at hkeyed
    exact hkeyed

/-- The node enters the lists one after the other. -/
inductive Applied (name : Bytes) : NodeEngine → List AclRecord → NodeEngine → Prop
  | nil {e : NodeEngine} : Applied name e [] e
  | cons {e e' e'' : NodeEngine} {m : AclRecord} {ms : List AclRecord}
      (hm : EntersAcl name m e e') (hms : Applied name e' ms e'') : Applied name e (m :: ms) e''

lemma Applied.entry_eq {ms : List AclRecord} (h : Applied name e ms e') :
    e'.entry name = ms.foldl (applyAcl name) (e.entry name) := by
  induction h with
  | nil => rfl
  | cons hm hms ih =>
    rw [ih, foldl_cons, NodeEngine.entry, hm.get, Option.getD_some]

/-- A collection the catalog has takes any lists. -/
lemma exists_applied (e : NodeEngine) (hhas : (e.storage.catalog.get name).isSome = true)
    (ms : List AclRecord) : ∃ e', Applied name e ms e' := by
  induction ms generalizing e with
  | nil => exact ⟨e, .nil⟩
  | cons m ms ih =>
    have hm : EntersAcl name m e _ := .set (.ok ()) hhas
    obtain ⟨e'', hms⟩ := ih _ (by rw [hm.get]; rfl)
    exact ⟨e'', .cons hm hms⟩

end NodeEngine

open NodeEngine

/-! ## The list in force -/

/-- A list `SetAclAt` does not refuse for its parent. -/
def Enterable (name : Bytes) (m : AclRecord) : Prop := m.1.parent ≠ name

section Fold

variable {name : Bytes} {records : List AclRecord} {entry : CollectionMeta}

/-- One list: it takes the place of the one in force, or it is older or refused. -/
lemma applyAcl_cases (name : Bytes) (entry : CollectionMeta) (m : AclRecord) :
    (Enterable name m ∧ entry.aclUpdatedMs ≤ m.2 ∧ (applyAcl name entry m).version = m) ∨
      ((Enterable name m → m.2 < entry.aclUpdatedMs) ∧ applyAcl name entry m = entry) := by
  unfold applyAcl Enterable
  split_ifs with h
  · exact Or.inr ⟨h.resolve_left, rfl⟩
  · rw [not_or, UInt64.not_lt] at h
    exact Or.inl ⟨h.1, h.2, rfl⟩

/-- The entry is new, or its list is one of the records. -/
def CollectionMeta.Known (name : Bytes) (records : List AclRecord) (entry : CollectionMeta) : Prop :=
  entry.version = ({}, 0) ∨ entry.version ∈ records ∧ Enterable name entry.version

variable {ms : List AclRecord}

/-- An entry with a list from the records keeps having one. -/
lemma foldl_applyAcl_mem (hms : ∀ m ∈ ms, m ∈ records)
    (hentry : entry.version ∈ records ∧ Enterable name entry.version) :
    (ms.foldl (applyAcl name) entry).version ∈ records ∧
      Enterable name (ms.foldl (applyAcl name) entry).version := by
  induction ms generalizing entry with
  | nil => exact hentry
  | cons m ms ih =>
    refine ih (fun k hk => hms k (mem_cons_of_mem m hk)) ?_
    rcases applyAcl_cases name entry m with ⟨hm, -, heq⟩ | ⟨-, heq⟩
    · rw [heq]
      exact ⟨hms m mem_cons_self, hm⟩
    · rw [heq]
      exact hentry

/-- **What is in force after the lists**: if there was one to enter, one of the largest version. -/
lemma foldl_applyAcl (hms : ∀ m ∈ ms, m ∈ records) (hentry : entry.Known name records) :
    (ms.foldl (applyAcl name) entry).Known name records ∧
      entry.aclUpdatedMs ≤ (ms.foldl (applyAcl name) entry).aclUpdatedMs ∧
      ∀ m ∈ ms, Enterable name m → m.2 ≤ (ms.foldl (applyAcl name) entry).aclUpdatedMs ∧
        (ms.foldl (applyAcl name) entry).version ∈ records ∧
        Enterable name (ms.foldl (applyAcl name) entry).version := by
  induction ms generalizing entry with
  | nil => exact ⟨hentry, UInt64.le_refl _, fun m hm => absurd hm not_mem_nil⟩
  | cons m ms ih =>
    have hm := hms m mem_cons_self
    have hrest := fun k hk => hms k (mem_cons_of_mem m hk)
    have hle : entry.aclUpdatedMs ≤ (applyAcl name entry m).aclUpdatedMs := by
      rcases applyAcl_cases name entry m with ⟨-, hle, heq⟩ | ⟨-, heq⟩
      · have hms : (applyAcl name entry m).aclUpdatedMs = m.2 := congrArg Prod.snd heq
        rwa [hms]
      · rw [heq]
        exact UInt64.le_refl _
    have hknown : (applyAcl name entry m).Known name records := by
      rcases applyAcl_cases name entry m with ⟨hen, -, heq⟩ | ⟨-, heq⟩
      · rw [CollectionMeta.Known, heq]
        exact Or.inr ⟨hm, hen⟩
      · rw [heq]
        exact hentry
    -- The list just applied: either it is in force now, or a newer one was.
    have hfirst : Enterable name m → m.2 ≤ (applyAcl name entry m).aclUpdatedMs ∧
        (applyAcl name entry m).version ∈ records ∧
        Enterable name (applyAcl name entry m).version := by
      intro hen
      rcases applyAcl_cases name entry m with ⟨-, -, heq⟩ | ⟨hlt, heq⟩
      · have hms : (applyAcl name entry m).aclUpdatedMs = m.2 := congrArg Prod.snd heq
        rw [hms, heq]
        exact ⟨UInt64.le_refl _, hm, hen⟩
      · rw [heq]
        refine ⟨UInt64.le_of_lt (hlt hen), hentry.resolve_left fun hnew => ?_⟩
        have hzero : entry.aclUpdatedMs = 0 := congrArg Prod.snd hnew
        exact UInt64.not_lt.mpr UInt64.zero_le (hzero ▸ hlt hen)
    obtain ⟨hknown', hle', hall⟩ := ih hrest hknown
    refine ⟨hknown', UInt64.le_trans hle hle', ?_⟩
    rw [forall_mem_cons]
    refine ⟨fun hen => ?_, hall⟩
    obtain ⟨hbound, hin⟩ := hfirst hen
    have hkept := foldl_applyAcl_mem hrest hin
    exact ⟨UInt64.le_trans hbound hle', hkept⟩

end Fold

/-! ## Convergence -/

/-- What the node has under the collection comes from the records. -/
def NodeEngine.Knows (name : Bytes) (records : List AclRecord) (e : NodeEngine) : Prop :=
  (e.entry name).Known name records

/-- Nodes that have applied all the lists, each in some order and with repetition, have the same
list in force. -/
def Converges (name : Bytes) (records : List AclRecord) : Prop :=
  ∀ e₁ e₁' e₂ e₂' ms₁ ms₂, e₁.Knows name records → e₂.Knows name records →
    (∀ m, m ∈ ms₁ ↔ m ∈ records) → (∀ m, m ∈ ms₂ ↔ m ∈ records) →
    Applied name e₁ ms₁ e₁' → Applied name e₂ ms₂ e₂' →
    (e₁'.entry name).acl = (e₂'.entry name).acl

/-- The list can be entered, and no list that can has a larger version. -/
def Newest (name : Bytes) (records : List AclRecord) (m : AclRecord) : Prop :=
  m ∈ records ∧ Enterable name m ∧ ∀ k ∈ records, Enterable name k → k.2 ≤ m.2

variable {name : Bytes} {records : List AclRecord} {e e' : NodeEngine}

/-- A node that has applied all of the lists has a newest one in force. -/
lemma newest_of_applied {ms : List AclRecord} (hknows : e.Knows name records)
    (hms : ∀ m, m ∈ ms ↔ m ∈ records) (happlied : Applied name e ms e') :
    (∃ m ∈ records, Enterable name m) → Newest name records (e'.entry name).version := by
  rintro ⟨m, hm, hen⟩
  obtain ⟨-, -, hall⟩ := foldl_applyAcl (fun m hm => (hms m).mp hm) hknows
  rw [← happlied.entry_eq] at hall
  obtain ⟨-, hin, henter⟩ := hall m ((hms m).mpr hm) hen
  exact ⟨hin, henter, fun k hk hken => (hall k ((hms k).mpr hk) hken).1⟩

/-- Without a list to enter the node keeps the default one. -/
lemma acl_of_none_enterable {ms : List AclRecord} (hknows : e.Knows name records)
    (hms : ∀ m, m ∈ ms ↔ m ∈ records) (happlied : Applied name e ms e')
    (hnone : ¬ ∃ m ∈ records, Enterable name m) :
    (e'.entry name).acl = {} := by
  obtain ⟨hknown, -, -⟩ := foldl_applyAcl (fun m hm => (hms m).mp hm) hknows
  rw [← happlied.entry_eq] at hknown
  exact congrArg Prod.fst (hknown.resolve_right fun hin => hnone ⟨_, hin⟩)

/-- A newest list that is applied last stays. -/
lemma acl_of_last {m : AclRecord} (hm : Newest name records m) (hknows : e.Knows name records)
    (happlied : Applied name e (records ++ [m]) e') : (e'.entry name).acl = m.1 := by
  rw [happlied.entry_eq, foldl_append]
  obtain ⟨-, -, hall⟩ := foldl_applyAcl (fun m hm => hm) hknows
  obtain ⟨-, hin, hen⟩ := hall m hm.1 hm.2.1
  rcases applyAcl_cases name (records.foldl (applyAcl name) (e.entry name)) m with
    ⟨-, -, heq⟩ | ⟨hlt, -⟩
  · exact congrArg Prod.fst heq
  · exact absurd (hlt hm.2.1) (UInt64.not_lt.mpr (hm.2.2 _ hin hen))

/-- **A set of lists converges exactly if its newest lists are the same one.** -/
theorem acl_converges_iff (name : Bytes) (records : List AclRecord) :
    Converges name records ↔
      ∀ m m', Newest name records m → Newest name records m' → m.1 = m'.1 := by
  constructor
  · intro h m m' hm hm'
    -- A node that has the collection, and nothing else, hears either of the two last.
    let e : NodeEngine := { sampleNode with
      storage := { sampleNode.storage with catalog := { collections := [(name, {})] } } }
    have hget : e.storage.catalog.get name = some {} := by
      simp [e, Catalog.get, AssocMap.get]
    have hknows : e.Knows name records := by
      rw [Knows, NodeEngine.entry, hget]
      exact Or.inl rfl
    have hsame : ∀ k ∈ records, ∀ j, j ∈ records ++ [k] ↔ j ∈ records := by
      intro k hk j
      rw [mem_append, mem_singleton]
      exact ⟨fun hj => hj.elim id fun heq => heq ▸ hk, Or.inl⟩
    obtain ⟨e₁, h₁⟩ := exists_applied e (by rw [hget]; rfl) (records ++ [m])
    obtain ⟨e₂, h₂⟩ := exists_applied e (by rw [hget]; rfl) (records ++ [m'])
    rw [← acl_of_last hm hknows h₁, ← acl_of_last hm' hknows h₂]
    exact h e e₁ e e₂ _ _ hknows hknows (hsame m hm.1) (hsame m' hm'.1) h₁ h₂
  · intro h e₁ e₁' e₂ e₂' ms₁ ms₂ hknows₁ hknows₂ hms₁ hms₂ h₁ h₂
    by_cases hsome : ∃ m ∈ records, Enterable name m
    · exact h _ _ (newest_of_applied hknows₁ hms₁ h₁ hsome) (newest_of_applied hknows₂ hms₂ h₂ hsome)
    · rw [acl_of_none_enterable hknows₁ hms₁ h₁ hsome, acl_of_none_enterable hknows₂ hms₂ h₂ hsome]

/-- Two lists of one owner with the same version, both properly signed.  Two nodes accept both, in
different orders, and end with different lists. -/
theorem equal_versions_diverge :
    let publicList := sampleAclCall (text "o") false 10
    let privateList := sampleAclCall (text "o") true 10
    let calls₁ := [publicList, privateList]
    let calls₂ := [privateList, publicList]
    Runs.outputs (aclStep sampleKeys) sampleNode calls₁ = [.ok (), .ok ()] ∧
    Runs.outputs (aclStep sampleKeys) sampleNode calls₂ = [.ok (), .ok ()] ∧
    ((Runs.final (aclStep sampleKeys) sampleNode calls₁).entry (text "c")).acl =
      { ownerNode := text "o", isPrivate := true } ∧
    ((Runs.final (aclStep sampleKeys) sampleNode calls₂).entry (text "c")).acl =
      { ownerNode := text "o", isPrivate := false } := by
  decide +kernel

end DeSentry
