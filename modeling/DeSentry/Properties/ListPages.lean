import DeSentry.Properties.PoisonedRows

/-!
# Pages of live documents

`ListDocuments` fetches `2 * limit + 16` rows and leaves the deleted ones out.  `list_page_iff` says
when a page has the documents that were asked for: exactly if enough of the fetched rows are live.
If every page has them, then paging by the last key lists every live document (`pages_eq`).
-/

namespace DeSentry

open ByteCodec KeyedList CrdtValue List

namespace NodeEngine

variable {e : NodeEngine} {collection startKey : Bytes} {limit : UInt64} {who : Requestor}

/-! ## Live documents -/

/-- The documents among some rows that are not deleted. -/
def liveRows (rows : List (Bytes × Bytes)) : List (Bytes × JsonValue) :=
  rows.filterMap fun row => match decode row.2 with
    | .ok doc => if doc.isEmpty then none else some (row.1, doc.toJson)
    | .error _ => none

/-- The live documents of a collection from a key on, in the order of their keys. -/
def liveFrom (e : NodeEngine) (collection startKey : Bytes) : List (Bytes × JsonValue) :=
  liveRows (e.storage.scanFrom collection startKey 0)

/-- The live documents among the rows that `ListDocuments` fetches. -/
def fetchedLive (e : NodeEngine) (collection startKey : Bytes) (limit : UInt64) :
    List (Bytes × JsonValue) :=
  liveRows (e.storage.scanFrom collection startKey (limit * 2 + 16))

/-- Every row of the collection is a document. -/
def Documents (e : NodeEngine) (collection : Bytes) : Prop :=
  ∀ row ∈ e.storage.scan collection, ∃ doc, decode row.2 = .ok doc

lemma mem_scan_of_mem_scanFrom {row : Bytes × Bytes}
    (h : row ∈ e.storage.scanFrom collection startKey limit) : row ∈ e.storage.scan collection := by
  unfold StorageEngine.scanFrom at h
  split_ifs at h
  · exact (mem_filter.mp h).1
  · exact (mem_filter.mp (mem_of_mem_take h)).1

/-- The loop of `ListDocuments` returns the first live documents among its rows. -/
lemma listLoop_eq {rows : List (Bytes × Bytes)} (h : ∀ row ∈ rows, ∃ doc, decode row.2 = .ok doc)
    (hlimit : limit ≠ 0) {found : ℕ} (hfound : found < limit.toNat) :
    listLoop limit found rows = .ok ((liveRows rows).take (limit.toNat - found)) := by
  induction rows generalizing found with
  | nil => simp [listLoop, liveRows]
  | cons row rows ih =>
    obtain ⟨⟨doc, hdoc⟩, hrows⟩ := forall_mem_cons.mp h
    obtain ⟨n, hn⟩ := Nat.exists_eq_add_of_lt hfound
    have hsub : limit.toNat - found = n + 1 := by omega
    have hlive : liveRows (row :: rows) =
        if doc.isEmpty then liveRows rows else (row.1, doc.toJson) :: liveRows rows := by
      rw [liveRows]
      split_ifs <;> simp_all [liveRows]
    simp only [listLoop, hlive, hdoc]
    by_cases hempty : doc.isEmpty
    · simpa only [hempty, if_true] using ih hrows hfound
    · simp only [hempty, Bool.false_eq_true, if_false, hsub, take_succ_cons]
      by_cases hfull : found + 1 ≥ limit.toNat
      · simp [hlimit, hfull, show n = 0 by omega]
      · rw [if_neg (by simp [hfull]), ih hrows (by omega),
          show limit.toNat - (found + 1) = n by omega]
        rfl

/-- `ListDocuments` returns the first live documents among the rows it fetches. -/
lemma listDocuments_eq (hread : e.canRead collection who = true) (h : e.Documents collection)
    (hlimit : limit ≠ 0) : e.listDocuments collection startKey limit who =
      .ok ((e.fetchedLive collection startKey limit).take limit.toNat) := by
  have hpos : 0 < limit.toNat :=
    Nat.pos_of_ne_zero fun hzero => hlimit (UInt64.toNat_inj.mp hzero)
  rw [listDocuments, if_neg (by simp [hread])]
  rw [if_neg hlimit,
    listLoop_eq (fun row hrow => h row (mem_scan_of_mem_scanFrom hrow)) hlimit hpos]
  rfl

/-- The fetched rows are the first ones. -/
lemma fetchedLive_prefix :
    e.fetchedLive collection startKey limit <+: e.liveFrom collection startKey := by
  refine List.IsPrefix.filterMap _ ?_
  unfold StorageEngine.scanFrom
  split_ifs with h h'
  · exact prefix_rfl
  · exact absurd rfl h'
  · exact take_prefix _ _
  · exact absurd rfl ‹_›

/-- A prefix begins like the whole list if it is long enough. -/
lemma take_eq_take_iff_of_prefix {α : Type} {p l : List α} (h : p <+: l) (n : ℕ) :
    p.take n = l.take n ↔ min n l.length ≤ p.length := by
  obtain ⟨q, rfl⟩ := h
  rw [take_append, self_eq_append_right, ← length_eq_zero_iff, length_take,
    length_append]
  omega

/-! ## Pages -/

/-- Enough of the fetched rows are live. -/
def EnoughLive (e : NodeEngine) (collection startKey : Bytes) (limit : UInt64) : Prop :=
  min limit.toNat (e.liveFrom collection startKey).length ≤
    (e.fetchedLive collection startKey limit).length

lemma listDocuments_eq_iff (hread : e.canRead collection who = true) (h : e.Documents collection)
    (hlimit : limit ≠ 0) : e.listDocuments collection startKey limit who =
      .ok ((e.liveFrom collection startKey).take limit.toNat) ↔
        e.EnoughLive collection startKey limit := by
  rw [listDocuments_eq hread h hlimit, Except.ok.injEq,
    take_eq_take_iff_of_prefix fetchedLive_prefix]
  rfl

/-- Up to `n` pages, each from right behind the last key of the one before. -/
def pages (e : NodeEngine) (collection : Bytes) (limit : UInt64) (who : Requestor) :
    ℕ → Bytes → Except Failure (List (Bytes × JsonValue))
  | 0, _ => .ok []
  | n + 1, startKey => do
    let page ← e.listDocuments collection startKey limit who
    match page.getLast? with
    | none => pure []
    | some last => (page ++ ·) <$> pages e collection limit who n (last.1 ++ [0])

lemma append_zero_le_iff (k key : Bytes) : k ++ [0] ≤ key ↔ k < key := by
  rw [← not_lt]
  induction k generalizing key with
  | nil =>
    cases key with
    | nil => simp
    | cons b key =>
      have hb : ¬ b < 0 := UInt8.not_lt_zero
      simp [cons_lt_cons_iff, hb]
  | cons a k ih =>
    cases key with
    | nil => simp
    | cons b key =>
      rcases lt_trichotomy a b with h | rfl | h
      · simp [cons_lt_cons_iff, h, h.not_gt, h.ne']
      · simp [ih]
      · simp [cons_lt_cons_iff, h, h.not_gt, h.ne']

lemma pairwise_scan : (e.storage.scan collection).Pairwise fun x y => x.1 < y.1 := by
  unfold StorageEngine.scan StorageRouter.scan
  cases e.storage.router.backendFor e.storage.catalog collection with
  | none => exact List.Pairwise.nil
  | some rows =>
    have hkeys {keys : List Bytes} (h : keys.Nodup) : Distinct id keys := by
      rwa [Distinct, map_id]
    refine List.Pairwise.filterMap _ (fun k k' hlt x hx y hy => ?_)
      (sortBy_pairwise_lt (hkeys (nodup_dedup _)))
    simp only [Option.map_eq_some_iff] at hx hy
    obtain ⟨-, -, rfl⟩ := hx
    obtain ⟨-, -, rfl⟩ := hy
    exact hlt

/-- The live documents behind one of them are what follows it. -/
lemma liveFrom_behind {front rest : List (Bytes × JsonValue)} {last : Bytes × JsonValue}
    (h : e.liveFrom collection startKey = front ++ last :: rest) :
    e.liveFrom collection (last.1 ++ [0]) = rest := by
  have hfilter (startKey : Bytes) : e.liveFrom collection startKey =
      (liveRows (e.storage.scan collection)).filter fun doc => decide (startKey ≤ doc.1) := by
    rw [liveFrom, StorageEngine.scanFrom, if_pos rfl, liveRows, liveRows, filter_filterMap,
      filterMap_filter]
    refine filterMap_congr fun row _ => ?_
    rcases decode row.2 with _ | doc
    · simp
    · by_cases hempty : doc.isEmpty <;> by_cases hle : startKey ≤ row.1 <;>
        simp [hempty, hle, Option.filter]
  have hsorted : (e.liveFrom collection startKey).Pairwise fun x y => x.1 < y.1 := by
    rw [hfilter]
    refine (pairwise_scan.filterMap _ fun x y hlt d hd d' hd' => ?_).filter _
    have hkey {row : Bytes × Bytes} {d : Bytes × JsonValue} (hd : (match decode row.2 with
        | .ok doc => if doc.isEmpty then none else some (row.1, doc.toJson)
        | .error _ => none) = some d) : d.1 = row.1 := by
      split at hd
      · split_ifs at hd
        rw [← Option.some.inj hd]
      · cases hd
    rwa [hkey hd, hkey hd']
  have hsub : e.liveFrom collection (last.1 ++ [0]) =
      (e.liveFrom collection startKey).filter fun doc => decide (last.1 < doc.1) := by
    have hlast : startKey ≤ last.1 := by
      have hmem : last ∈ e.liveFrom collection startKey := by rw [h]; simp
      rw [hfilter] at hmem
      exact of_decide_eq_true (mem_filter.mp hmem).2
    rw [hfilter, hfilter, filter_filter]
    refine filter_congr fun doc _ => ?_
    rw [← Bool.decide_and]
    refine decide_eq_decide.mpr ((append_zero_le_iff last.1 doc.1).trans ?_)
    exact ⟨fun hlt => ⟨hlt, hlast.trans hlt.le⟩, And.left⟩
  rw [h, pairwise_append, pairwise_cons] at hsorted
  obtain ⟨-, ⟨hrest, -⟩, hfront⟩ := hsorted
  rw [hsub, h, filter_append, filter_cons, if_neg (by simp),
    filter_eq_nil_iff.mpr fun doc hdoc => by simpa using (hfront doc hdoc last (by simp)).le,
    filter_eq_self.mpr fun doc hdoc => by simpa using hrest doc hdoc, nil_append]

/-- **Paging by the last key lists every live document**, if every page has enough of them. -/
lemma pages_eq (hread : e.canRead collection who = true) (h : e.Documents collection)
    (hlimit : limit ≠ 0) (henough : ∀ startKey, e.EnoughLive collection startKey limit) {n : ℕ}
    (hn : (e.liveFrom collection startKey).length < n) :
    e.pages collection limit who n startKey = .ok (e.liveFrom collection startKey) := by
  induction n generalizing startKey with
  | zero => cases hn
  | succ n ih =>
    have hpage := (listDocuments_eq_iff hread h hlimit).mpr (henough startKey)
    have hpos : 0 < limit.toNat :=
      Nat.pos_of_ne_zero fun hzero => hlimit (UInt64.toNat_inj.mp hzero)
    rw [pages, hpage]
    rcases eq_nil_or_concat ((e.liveFrom collection startKey).take limit.toNat) with
      hnil | ⟨front, last, hconcat⟩
    · have hempty : e.liveFrom collection startKey = [] := by
        rcases take_eq_nil_iff.mp hnil with hzero | hempty
        · omega
        · exact hempty
      simp [hempty]
      rfl
    · obtain ⟨rest, hsplit⟩ : ∃ rest, e.liveFrom collection startKey = front ++ last :: rest := by
        refine ⟨(e.liveFrom collection startKey).drop limit.toNat, ?_⟩
        conv_lhs => rw [← take_append_drop limit.toNat (e.liveFrom _ _), hconcat]
        simp
      have hrest := liveFrom_behind hsplit
      have hshort : (e.liveFrom collection (last.1 ++ [0])).length < n := by
        rw [hrest]
        simp only [hsplit, length_append, length_cons] at hn
        omega
      have hnext := ih hshort
      rw [hconcat, hsplit]
      simp [Bind.bind, Except.bind, Functor.map, Except.map, hnext, hrest]

/-- **When a page has the documents that were asked for**: exactly if enough of the fetched rows are
live.  If that is so for every start, then paging lists every live document. -/
theorem list_page_iff (e : NodeEngine) (collection : Bytes) (limit : UInt64) (who : Requestor)
    (hread : e.canRead collection who = true) (h : e.Documents collection) (hlimit : limit ≠ 0) :
    (∀ startKey, e.listDocuments collection startKey limit who =
        .ok ((e.liveFrom collection startKey).take limit.toNat) ↔
          e.EnoughLive collection startKey limit) ∧
      ((∀ startKey, e.EnoughLive collection startKey limit) → ∀ startKey n,
        (e.liveFrom collection startKey).length < n →
          e.pages collection limit who n startKey = .ok (e.liveFrom collection startKey)) :=
  ⟨fun _ => listDocuments_eq_iff hread h hlimit,
    fun henough _ _ hn => pages_eq hread h hlimit henough hn⟩

/-- A node with some empty documents and one that is not. -/
def mostlyDeleted (n : ℕ) : NodeEngine :=
  ((List.range n).map fun i => (UInt8.ofNat i, JsonValue.object [])).concat
    (255, .object [(text "a", .scalar .null)]) |>.foldl (fun e (b, doc) =>
      (e.putDocument sampleCrypto { wall := 5000 } (text "c") [b] doc ⟨sampleNode.nodeId, true⟩).2)
    sampleNode

/-- Behind 18 deleted documents the live one is not on the first page. -/
theorem live_document_not_listed :
    (mostlyDeleted 18).listDocuments (text "c") [] 1 ⟨sampleNode.nodeId, true⟩ ≠
      .ok (((mostlyDeleted 18).liveFrom (text "c") []).take 1) := by
  intro h
  have hlen := congrArg (fun page => page.toOption.map List.length) h
  revert hlen
  decide +kernel

/-- A page behind one deleted document. -/
theorem list_page_sample :
    (mostlyDeleted 1).listDocuments (text "c") [] 1 ⟨sampleNode.nodeId, true⟩ =
      .ok (((mostlyDeleted 1).liveFrom (text "c") []).take 1) := by
  refine ((list_page_iff (mostlyDeleted 1) (text "c") 1 ⟨sampleNode.nodeId, true⟩
    (by decide +kernel) (fun row hrow => ?_) (by decide)).1 []).mpr ?_
  · have hdecode : ((mostlyDeleted 1).storage.scan (text "c")).all
        (fun row => (decode row.2).isOk) = true := by decide +kernel
    have hok := all_eq_true.mp hdecode row hrow
    cases h : decode row.2 with
    | error what => simp [h, Except.isOk, Except.toBool] at hok
    | ok doc => exact ⟨doc, rfl⟩
  · unfold EnoughLive
    decide +kernel

end NodeEngine

end DeSentry
