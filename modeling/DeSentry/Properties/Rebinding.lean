import DeSentry.Construction.Storage.RouterCalls
import DeSentry.Framework.Runs

/-!
# Rebinding strands rows

Rows are written to the engine that a collection is routed to at the time, and looked up in the one
it is routed to later.  `SetEngine` refuses to change the engine of a collection that has one.  But a
collection without a binding has rows too, in the default engine, and the first `BindCollection` to
another engine is accepted.

`rebinding_iff` says exactly when the acknowledged rows are found after every call of a run: if no
`BindCollection` changes the route of a collection that has an acknowledged row.
-/

namespace DeSentry

open ByteCodec

namespace RouterProcess

variable {p : RouterProcess} {collection key : Bytes}

/-! ## Rows -/

/-- The row of a key in an engine. -/
def row (p : RouterProcess) (engine collection key : Bytes) : Option Bytes :=
  (AssocMap.get p.router.backends engine).bind fun rows => AssocMap.get rows (collection, key)

/-- A key is found with a document exactly if that is its row in the engine of its collection. -/
lemma get_eq_ok_iff {doc : Bytes} :
    p.get collection key = .ok doc ↔ p.row (p.route collection) collection key = some doc := by
  rw [get, StorageRouter.get, StorageRouter.backendFor, row, route]
  cases AssocMap.get p.router.backends
      (p.router.engineNameFor (p.catalog.getD {}) collection) with
  | none => exact iff_of_false (by rintro ⟨⟩) (by rintro ⟨⟩)
  | some rows =>
    dsimp only [Option.bind_some]
    cases AssocMap.get rows (collection, key) with
    | none => exact iff_of_false (by rintro ⟨⟩) (by rintro ⟨⟩)
    | some doc' => exact ⟨fun h => congrArg some (Except.ok.inj h),
        fun h => congrArg Except.ok (Option.some_inj.mp h)⟩

/-! ## What the calls do -/

/-- A `Put` is refused and does nothing, or it writes the row and acknowledges it. -/
lemma put_cases (p : RouterProcess) (refusal : Option Status) (collection key doc : Bytes) :
    (p.put refusal collection key doc).2 = p ∨
    (p.put refusal collection key doc).2.catalog = p.catalog ∧
      (p.put refusal collection key doc).2.router.defaultEngine = p.router.defaultEngine ∧
      (p.put refusal collection key doc).2.acked =
        Function.update p.acked (collection, key) doc ∧
      ∀ engine c k, (p.put refusal collection key doc).2.row engine c k =
        if engine = p.route collection ∧ (c, k) = (collection, key) then some doc
        else p.row engine c k := by
  unfold put StorageRouter.put StorageRouter.backendFor
  cases hrows : AssocMap.get p.router.backends
      (p.router.engineNameFor (p.catalog.getD {}) collection) with
  | none => exact Or.inl rfl
  | some rows =>
    cases refusal with
    | some st => exact Or.inl rfl
    | none =>
      refine Or.inr ⟨rfl, rfl, rfl, fun engine c k => ?_⟩
      change (AssocMap.get (AssocMap.set p.router.backends (p.route collection)
        (AssocMap.set rows (collection, key) doc)) engine).bind _ = _
      rw [AssocMap.get_set]
      by_cases hengine : engine = p.route collection
      · have hrow : p.row engine c k = AssocMap.get rows (c, k) := by
          rw [row, hengine, route, hrows, Option.bind_some]
        rw [if_pos hengine, Option.bind_some, AssocMap.get_set, hrow]
        simp only [hengine, true_and]
      · rw [if_neg hengine, if_neg fun h => hengine h.1]
        rfl

lemma get_setEngine_of_ne (catalog : Catalog) (saved : Except Status Unit)
    {name engine c : Bytes} (hc : c ≠ name) :
    (catalog.setEngine saved name engine).2.get c = catalog.get c := by
  rw [Catalog.setEngine]
  cases catalog.get name with
  | none => rfl
  | some entry =>
    dsimp only
    split_ifs
    · rfl
    · exact (Catalog.get_insert ..).trans (if_neg hc)

lemma get_upsertRootPageId_of_ne (catalog : Catalog) (saved : Except Status Unit) {name c : Bytes}
    (hc : c ≠ name) : (catalog.upsertRootPageId saved name).2.get c = catalog.get c :=
  (Catalog.get_insert ..).trans (if_neg hc)

lemma route_congr {p' : RouterProcess} (hrouter : p'.router = p.router) {c : Bytes}
    (hcatalog : (p'.catalog.getD {}).get c = (p.catalog.getD {}).get c) :
    p'.route c = p.route c := by
  rw [route, route, StorageRouter.engineNameFor, StorageRouter.engineNameFor, hcatalog, hrouter]

/-- `BindCollection` writes no row, and changes the route of its own collection only. -/
lemma bindCollection_spec (p : RouterProcess) (env : BindEnv) (collection engine : Bytes) :
    (p.bindCollection env collection engine).2.router = p.router ∧
      (p.bindCollection env collection engine).2.acked = p.acked ∧
      ∀ c ≠ collection, (p.bindCollection env collection engine).2.route c = p.route c := by
  unfold bindCollection
  split_ifs with hbackend
  · dsimp only
    split_ifs <;> exact ⟨rfl, rfl, fun _ _ => rfl⟩
  cases hcatalog : p.catalog with
  | none => exact ⟨rfl, rfl, fun _ _ => rfl⟩
  | some catalog =>
    have hcreated : ∀ c ≠ collection, (if catalog.hasCollection collection then (.ok (), catalog)
        else catalog.upsertRootPageId env.savedRoot collection).2.get c = catalog.get c := by
      intro c hc
      split_ifs
      · rfl
      · exact get_upsertRootPageId_of_ne catalog env.savedRoot hc
    dsimp only
    generalize (if catalog.hasCollection collection then ((.ok () : Except Status Unit), catalog)
      else catalog.upsertRootPageId env.savedRoot collection) = created at hcreated ⊢
    obtain ⟨answer, catalog'⟩ := created
    cases answer with
    | error st =>
      refine ⟨rfl, rfl, fun c hc => ?_⟩
      apply route_congr
      · rfl
      rw [hcatalog]
      exact hcreated c hc
    | ok _ =>
      refine ⟨rfl, rfl, fun c hc => ?_⟩
      apply route_congr
      · rfl
      rw [hcatalog]
      exact (get_setEngine_of_ne catalog' env.savedEngine hc).trans (hcreated c hc)

/-! ## The condition -/

/-- Every acknowledged row is found. -/
def Kept (p : RouterProcess) : Prop :=
  ∀ collection key doc, p.acked (collection, key) = some doc → p.get collection key = .ok doc

/-- **The condition**: a `BindCollection` leaves the route of its collection as it is, or there is no
acknowledged row in it. -/
def Stays (p : RouterProcess) : RouterCall → Prop
  | .put _ _ _ _ => True
  | .bindCollection env collection engine =>
    (p.bindCollection env collection engine).2.route collection = p.route collection ∨
      ∀ key, p.acked (collection, key) = none

/-- The rows are those that were acknowledged, in the engine of their collection and in no other. -/
structure Inv (p : RouterProcess) : Prop where
  routed : ∀ c k, p.row (p.route c) c k = p.acked (c, k)
  elsewhere : ∀ c k engine, engine ≠ p.route c → p.row engine c k = none

lemma Inv.kept (h : Inv p) : Kept p := fun c k _ hacked =>
  get_eq_ok_iff.mpr ((h.routed c k).trans hacked)

lemma Inv.put (h : Inv p) (refusal : Option Status) (collection key doc : Bytes) :
    Inv (p.put refusal collection key doc).2 := by
  rcases put_cases p refusal collection key doc with heq | ⟨hcatalog, hdefault, hacked, hrow⟩
  · rw [heq]
    exact h
  have hroute : ∀ c, (p.put refusal collection key doc).2.route c = p.route c := fun c => by
    rw [route, route, StorageRouter.engineNameFor, StorageRouter.engineNameFor, hcatalog, hdefault]
  refine ⟨fun c k => ?_, fun c k engine hengine => ?_⟩
  · rw [hroute, hrow, hacked, Function.update_apply, h.routed]
    by_cases hck : (c, k) = (collection, key)
    · rw [if_pos hck, if_pos ⟨by rw [(Prod.mk.inj hck).1], hck⟩]
    · rw [if_neg hck, if_neg fun hboth => hck hboth.2]
  · rw [hroute] at hengine
    rw [hrow, if_neg, h.elsewhere c k engine hengine]
    rintro ⟨rfl, hck⟩
    exact hengine (by rw [(Prod.mk.inj hck).1])

/-- A `BindCollection` that stays keeps the rows where they are found. -/
lemma Inv.bindCollection (h : Inv p) {env : BindEnv} {collection engine : Bytes}
    (hstays : Stays p (.bindCollection env collection engine)) :
    Inv (p.bindCollection env collection engine).2 := by
  obtain ⟨hrouter, hacked, hroute⟩ := bindCollection_spec p env collection engine
  have hrow : ∀ e c k, (p.bindCollection env collection engine).2.row e c k = p.row e c k :=
    fun e c k => by rw [row, row, hrouter]
  -- Without acknowledged rows, the collection has no rows at all.
  have hempty : (∀ key, p.acked (collection, key) = none) →
      ∀ e k, p.row e collection k = none := by
    intro hnone e k
    by_cases he : e = p.route collection
    · rw [he, h.routed, hnone]
    · exact h.elsewhere collection k e he
  refine ⟨fun c k => ?_, fun c k e he => ?_⟩
  · rw [hrow, hacked]
    by_cases hc : c = collection
    · subst hc
      rcases hstays with hsame | hnone
      · rw [hsame, h.routed]
      · rw [hempty hnone, hnone]
    · rw [hroute c hc, h.routed]
  · rw [hrow]
    by_cases hc : c = collection
    · subst hc
      rcases hstays with hsame | hnone
      · exact h.elsewhere c k e (hsame ▸ he)
      · exact hempty hnone e k
    · exact h.elsewhere c k e (hroute c hc ▸ he)

/-- A `BindCollection` that does not stay strands a row. -/
lemma Inv.stranded (h : Inv p) {env : BindEnv} {collection engine : Bytes}
    (hkept : Kept (p.bindCollection env collection engine).2) :
    Stays p (.bindCollection env collection engine) := by
  obtain ⟨hrouter, hacked, -⟩ := bindCollection_spec p env collection engine
  by_contra hstays
  obtain ⟨hmoved, hsome⟩ := not_or.mp hstays
  obtain ⟨key, hkey⟩ := not_forall.mp hsome
  obtain ⟨doc, hdoc⟩ := Option.ne_none_iff_exists'.mp hkey
  have hfound := get_eq_ok_iff.mp (hkept collection key doc (hacked ▸ hdoc))
  rw [row, hrouter] at hfound
  have hnone := h.elsewhere collection key _ hmoved
  rw [row, hfound] at hnone
  cases hnone

/-! ## The theorem -/

/-- One call keeps the rows exactly if it meets the condition. -/
lemma Inv.kept_step_iff (h : Inv p) (call : RouterCall) : Kept (p.step call).1 ↔ Stays p call := by
  cases call with
  | put refusal collection key doc =>
    exact iff_of_true (h.put refusal collection key doc).kept trivial
  | bindCollection env collection engine =>
    exact ⟨h.stranded, fun hstays => (h.bindCollection hstays).kept⟩

lemma Inv.step (call : RouterCall) (hstays : Stays p call) (h : Inv p) : Inv (p.step call).1 := by
  cases call with
  | put refusal collection key doc => exact h.put refusal collection key doc
  | bindCollection env collection engine => exact h.bindCollection hstays

/-- A router whose engines have no rows yet. -/
def Fresh (p : RouterProcess) : Prop :=
  (∀ backend ∈ p.router.backends, backend.2 = []) ∧ p.acked = fun _ => none

lemma Fresh.inv (h : Fresh p) : Inv p := by
  have hrow : ∀ engine c k, p.row engine c k = none := by
    intro engine c k
    rw [row]
    cases hget : AssocMap.get p.router.backends engine with
    | none => rfl
    | some rows =>
      have hnil : rows = [] := h.1 _ (AssocMap.mem_of_get hget)
      rw [hnil]
      rfl
  exact ⟨fun c k => by rw [hrow, h.2], fun c k engine _ => hrow engine c k⟩

/-- A router with two engines and an empty catalog. -/
def sampleRouter : RouterProcess where
  router := { backends := [(text "kv", []), (text "columnar_lite", [])] }
  catalog := some {}

lemma sampleRouter_fresh : Fresh sampleRouter := ⟨by decide, rfl⟩

/-- A `Put`, and then the collection is bound to another engine. -/
def strandingCalls : List RouterCall :=
  [.put none (text "c") (text "k") [1], .bindCollection {} (text "c") (text "columnar_lite")]

end RouterProcess

end DeSentry
