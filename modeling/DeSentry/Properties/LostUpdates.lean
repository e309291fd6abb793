import DeSentry.Framework.Runs
import DeSentry.Properties.ConcurrentEdits
import DeSentry.Properties.EngineCalls

/-!
# Lost updates

`PutDocument` and `MergeRemote` read a document, compute a new version and write it, and no lock
covers the three.  Two calls that read the same version write one after the other, and the second
row replaces the first: an acknowledged write is gone (`concurrent_merge_is_lost`).

`no_lost_update` says what is needed for nothing to be lost in a run, whatever the order of the
steps of all calls.  At each write of the key, the stored document is still the one the call has
read.  That is not all: a merge and an update can also bring back what was there before, where they
replace a part of the document by one of another shape, so each write must spare what was
acknowledged before it (`RowWrite.Safe`).

The invariant is that the stored document has absorbed what every acknowledged call contributed.
For a merge that is the property itself.  For an update it says that the fields it wrote are there,
or something written later stands in their place or above (`kept_of_absorbs`).
-/

namespace DeSentry

open ByteCodec KeyedList Runs NodeEngine
open List hiding lookup lookup_nil merge

/-! ## Written fields -/

namespace CrdtValue

/-- Every node is of the write stamped `ts`, or belongs to a part that is older throughout. -/
def Layered (ts : HLCTimestamp) (v : CrdtValue) : Prop :=
  v.All fun x => x.ts = ts ∨ x.All fun y => y.ts < ts

/-- What the write `w`, stamped `ts`, has at a path is still there in `d`, or at it or above it
stands something else that was written later. -/
def Kept (ts : HLCTimestamp) (d w : CrdtValue) (path : List PathStep) : Prop :=
  ∃ above below z x, path = above ++ below ∧ d.nodeAt above = some z ∧ w.nodeAt above = some x ∧
    ((below = [] ∧ (SameContainer z x ∨ z.canon = x.canon)) ∨ (¬ SameContainer z x ∧ ts < z.ts))

section Layered

variable {ts : HLCTimestamp} {p : CrdtValue → Prop} {v : CrdtValue}

lemma layered_fromJson (j : JsonValue) (seq : UInt64) : (fromJson ts j seq).1.Layered ts := by
  induction j generalizing seq with
  | scalar s => exact all_scalar.mpr (Or.inl rfl)
  | array items ih =>
    rw [fromJson_array]
    refine all_array.mpr ⟨Or.inl rfl, fun e he => ?_⟩
    obtain ⟨-, ⟨x, hx, s, hv⟩, -⟩ := mem_newElems items [] seq he
    rw [hv]
    exact ih x hx s
  | object fields ih =>
    rw [fromJson_object]
    refine all_object.mpr ⟨Or.inl rfl, ?_⟩
    refine forall_mem_updateFields (fun f hf s => ?_) seq
    exact ih f hf s

/-- An update is a layer on top of the old document. -/
lemma layered_apply {previous : CrdtValue} (h : previous.All fun x => x.ts < ts) (j : JsonValue)
    (seq : UInt64) : (applyJsonUpdate ts previous j seq).1.Layered ts := by
  refine all_apply (P := fun x => x.ts = ts ∨ x.All fun y => y.ts < ts)
    (fun _ hx => Or.inr hx) (fun _ _ _ _ => trivial) (fun _ _ _ _ => trivial) (Or.inl rfl)
    (fun j seq _ => layered_fromJson j seq) ?_ ?_ h.all trivial seq
  · exact fun _ _ _ _ _ _ => Or.inl rfl
  · exact fun _ _ _ _ _ _ => Or.inl rfl

/-- A node of the write has only nodes of the write above it. -/
lemma Layered.root_ts {x : CrdtValue} (h : v.Layered ts) (hx : x ∈ v.nodes) (hts : x.ts = ts) :
    v.ts = ts :=
  h.root.resolve_right fun hlt => absurd hts (hlt x hx).ne

end Layered

section Kept

variable {ts : HLCTimestamp} {a b b' d w x : CrdtValue} {p : PathStep} {path : List PathStep}

/-- What a container has absorbed of another one, its children have absorbed of the children. -/
lemma absorbs_child (h : LwwTree.Absorbs a.denote b.denote) (hc : SameContainer a b)
    (hb : b.child p = some b') :
    ∃ a', a.child p = some a' ∧ LwwTree.Absorbs a'.denote b'.denote := by
  obtain ⟨t, t', es, es', rfl, rfl⟩ | ⟨t, t', fs, fs', rfl, rfl⟩ := hc.elim
  · cases p with
    | key k => cases hb
    | tag k =>
      obtain ⟨e, he, rfl⟩ := Option.map_eq_some_iff.mp hb
      rw [denote_array] at h
      have hk := h.2.2 k
      rw [denoteElems_eq, denoteElems_eq es' k, he] at hk
      cases hl : lookup CrdtArrayElem.tag k es with
      | none =>
        rw [hl] at hk
        exact absurd (LwwTree.absorbs_absent_left.mp hk) (denote_ne_absent e.value)
      | some g =>
        rw [hl] at hk
        exact ⟨g.value, congrArg (Option.map CrdtArrayElem.value) hl, hk⟩
  · cases p with
    | tag k => cases hb
    | key k =>
      obtain ⟨f, hf, rfl⟩ := Option.map_eq_some_iff.mp hb
      rw [denote_object] at h
      have hk := h.2.2 k
      rw [denoteFields_eq, denoteFields_eq fs' k, hf] at hk
      cases hl : lookup Prod.fst k fs with
      | none =>
        rw [hl] at hk
        exact absurd (LwwTree.absorbs_absent_left.mp hk) (denote_ne_absent f.2)
      | some g =>
        rw [hl] at hk
        exact ⟨g.2, congrArg (Option.map Prod.snd) hl, hk⟩

/-- Where a write has been replaced, what replaced it is the same leaf or was written later. -/
lemma later_of_absorbs (habs : LwwTree.Absorbs d.denote w.denote)
    (hagree : StampsAgree d w) (hts : w.ts = ts) (hc : ¬ SameContainer d w) :
    d.canon = w.canon ∨ ts < d.ts := by
  rw [LwwTree.absorbs_of_not_sameKind fun hk => hc (sameKind_denote.mp hk), stamp_denote,
    stamp_denote, WithBot.coe_le_coe, hts] at habs
  rcases eq_or_lt_of_le habs with heq | hlt
  · exact Or.inl ((hagree [] d w rfl rfl (heq.symm.trans hts.symm)).resolve_left hc)
  · exact Or.inr hlt

lemma not_isLeaf_of_child {p : PathStep} {w' : CrdtValue} (h : w.child p = some w') :
    ¬ w.IsLeaf := by
  rcases w with _ | ⟨_, _ | _, es⟩ | ⟨_, _ | _, fs⟩ <;> cases p <;>
    simp_all [child, IsLeaf]

/-- **What a write left is kept**, in every document that has absorbed the write. -/
lemma kept_of_absorbs (habs : LwwTree.Absorbs d.denote w.denote) (hagree : StampsAgree d w)
    (hw : w.Layered ts) (hx : w.nodeAt path = some x) (hts : x.ts = ts) : Kept ts d w path := by
  have hroot : w.ts = ts := hw.root_ts (mem_nodes_of_nodeAt hx) hts
  induction path generalizing d w with
  | nil =>
    by_cases hc : SameContainer d w
    · exact ⟨[], [], d, w, rfl, rfl, rfl, Or.inl ⟨rfl, Or.inl hc⟩⟩
    · refine ⟨[], [], d, w, rfl, rfl, rfl, ?_⟩
      rcases later_of_absorbs habs hagree hroot hc with heq | hlt
      · exact Or.inl ⟨rfl, Or.inr heq⟩
      · exact Or.inr ⟨hc, hlt⟩
  | cons p path ih =>
    obtain ⟨w', hw', hx'⟩ := Option.bind_eq_some_iff.mp hx
    by_cases hc : SameContainer d w
    · -- the path goes on in both documents
      obtain ⟨d', hd', habs'⟩ := absorbs_child habs hc hw'
      have hlayer : w'.Layered ts := fun y hy => hw y (mem_nodes_of_child hw' hy)
      obtain ⟨above, below, z, y, rfl, hz, hy, hcase⟩ := ih habs' (hagree.child hd' hw') hlayer hx'
        (hlayer.root_ts (mem_nodes_of_nodeAt hx') hts)
      refine ⟨p :: above, below, z, y, rfl, ?_, ?_, hcase⟩
      · rw [nodeAt, hd', Option.bind_some, hz]
      · rw [nodeAt, hw', Option.bind_some, hy]
    · refine ⟨[], p :: path, d, w, rfl, rfl, rfl, Or.inr ⟨hc, ?_⟩⟩
      rcases later_of_absorbs habs hagree hroot hc with heq | hlt
      · -- a container is not replaced by a leaf of its own stamp
        exfalso
        have hleaf : ¬ w.IsLeaf := not_isLeaf_of_child hw'
        cases d <;> cases w <;> simp_all [canon, SameContainer, IsLeaf]
      · exact hlt

end Kept

section Depth

/-- A merge is nested no deeper than its arguments. -/
lemma depth_merge_le {a b : CrdtValue} {n : ℕ} (ha : a.depth ≤ n) (hb : b.depth ≤ n) :
    (merge a b).depth ≤ n := by
  induction a, b using merge_induction generalizing n with
  | whole a b hc =>
    rw [merge_of_not_sameContainer hc, later]
    split_ifs
    · exact hb
    · exact ha
  | array ta tb ea eb ih =>
    obtain ⟨m, rfl⟩ : ∃ m, n = m + 1 := ⟨n - 1, by rw [depth] at ha; omega⟩
    rw [depth, Nat.add_le_add_iff_right, depthElems_le] at ha hb
    rw [merge_array, depth, Nat.add_le_add_iff_right, depthElems_le]
    intro e he
    rcases mem_join he with hea | heb | ⟨e, hea, g, hgb, -, rfl⟩
    · exact ha e hea
    · exact hb e heb
    · exact ih e hea g.value (ha e hea) (hb g hgb)
  | object ta tb fa fb ih =>
    obtain ⟨m, rfl⟩ : ∃ m, n = m + 1 := ⟨n - 1, by rw [depth] at ha; omega⟩
    rw [depth, Nat.add_le_add_iff_right, depthFields_le] at ha hb
    rw [merge_object, depth, Nat.add_le_add_iff_right, depthFields_le]
    intro f hf
    rcases mem_join hf with hfa | hfb | ⟨f, hfa, g, hgb, -, rfl⟩
    · exact ha f hfa
    · exact hb f hfb
    · exact ih f hfa g.2 (ha f hfa) (hb g hgb)

end Depth

end CrdtValue

open CrdtValue

/-! ## Calls and what they write -/

namespace RowWrite

/-- What a call adds to the document: the version it wrote, or the remote one it merged. -/
def contribution (w : RowWrite) : CrdtValue :=
  match w.origin with
  | .update _ _ => w.doc
  | .remote remote => remote

/-- The write is the one its call asks for. -/
def Of (w : RowWrite) : EngineCall → Prop
  | .putDocument collection key newJson _ => w.collection = collection ∧ w.key = key ∧
      ∃ ts seq, w.origin = .update newJson ts ∧
        w.doc = (updatedDocument w.previous newJson ts seq).1
  | .mergeRemote collection key remoteDoc _ => w.collection = collection ∧ w.key = key ∧
      ∃ remote, decode remoteDoc = .ok remote ∧ w.origin = .remote remote ∧
        w.doc = w.previous.elim remote (CrdtValue.merge · remote)
  | .localDigest _ => False

/-- The write keeps what the writes `stored` have contributed.  An update is stamped after all of
them and covers them; a remote document spares them, and agrees with the updates on what an equal
stamp means. -/
def Safe (stored : RowWrite → Prop) (w : RowWrite) : Prop :=
  match w.origin with
  | .update newJson ts =>
    (newJson.UniqueKeys ∧ newJson.elemCount ≤ 2 ^ 64 ∧ newJson.depth ≤ kMaxDecodeDepth + 1) ∧
      (∀ v ∈ w.previous, v.All (Sound (· < ts))) ∧
      ∀ o, stored o → o.contribution.All (Sound (· < ts)) ∧
        ∀ v ∈ w.previous, writeCovers v newJson o.contribution = true
  | .remote remote =>
    remote.WellFormed ∧ (∀ v ∈ w.previous, v.WellFormed) ∧
      ∀ o, stored o →
        (∀ v ∈ w.previous, LwwTree.Spares v.denote remote.denote o.contribution.denote) ∧
        ∀ newJson ts, o.origin = .update newJson ts → StampsAgree remote o.doc

/-- The document has everything the write contributed. -/
structure Preserved (w : RowWrite) (d : CrdtValue) : Prop where
  wellFormed : w.contribution.WellFormed
  absorbs : LwwTree.Absorbs d.denote w.contribution.denote
  agree : ∀ newJson ts, w.origin = .update newJson ts → LwwTree.Compat d.denote w.doc.denote
  layered : ∀ newJson ts, w.origin = .update newJson ts → w.doc.Layered ts

end RowWrite

/-- The local variables of a call are those of its request. -/
def Stage.Of : EngineCall → Stage → Prop
  | .mergeRemote _ _ remoteDoc _, .observed remote => decode remoteDoc = .ok remote
  | request, .writing w => w.Of request
  | request, .written w => w.Of request
  | request, .done w => w.Of request
  | _, _ => True

namespace NodeEngine

variable {e : NodeEngine} {c : Crypto} {env : WriteEnv} {appended : Except Status Unit}
  {request : EngineCall} {stage : Stage} {collection key : Bytes}

/-- What is read depends on the row only. -/
lemma currentDocument_congr {e' : NodeEngine}
    (h : e'.storage.getRaw collection key = e.storage.getRaw collection key) :
    e'.currentDocument collection key = e.currentDocument collection key := by
  rw [currentDocument, currentDocument, h]

/-- A row that was just written is read back in its canonical form. -/
lemma currentDocument_of_row {v : CrdtValue} (h : e.storage.getRaw collection key = .ok v.encode)
    (hdepth : v.depth ≤ kMaxDecodeDepth + 1) (hlen : v.encode.length < 2 ^ 32) :
    e.currentDocument collection key = .ok (some v.canon) := by
  have hdecode : decode v.encode = .ok v.canon := decodeAt_encode hdepth hlen
  rw [currentDocument, h]
  dsimp only
  rw [hdecode]

/-- A step keeps the local variables of a call its own. -/
lemma advance_of (h : Stage.Of request stage) :
    Stage.Of request (e.advance c env appended request stage).1 := by
  cases stage with
  | writing w =>
    have hadvance : e.advance c env appended request (.writing w) = e.writeCall c env.put w := by
      cases request <;> rfl
    rw [hadvance, writeCall]
    rcases e.storage.putRaw c env.put w.collection w.key w.doc.encode with ⟨st | _, storage⟩
    · cases request <;> exact trivial
    · cases request <;> exact h
  | written w => cases request <;> exact h
  | called =>
    cases request with
    | putDocument collection key newJson who =>
      change Stage.Of _ (e.beginPut collection key who)
      unfold beginPut
      split_ifs <;> try trivial
      cases e.currentDocument collection key <;> trivial
    | mergeRemote collection key remoteDoc who =>
      change Stage.Of _ (e.beginMerge env.wall appended collection remoteDoc who).1
      unfold beginMerge
      split_ifs
      · trivial
      · cases TransitEnvelope.decode remoteDoc <;> trivial
      · trivial
      · cases hdecode : decode remoteDoc with
        | error what => trivial
        | ok remote =>
          change Stage.Of _ (e.observeRemote env.wall remote).1
          rcases e.observeRemote_cases env.wall remote with ⟨st, hstage⟩ | hstage
          · rw [hstage]
            trivial
          · rw [hstage]
            exact hdecode
    | localDigest collection => trivial
  | read previous =>
    cases request with
    | putDocument collection key newJson who =>
      exact ⟨rfl, rfl, (e.now env.wall).2, (e.now env.wall).1.tagCounter, rfl, rfl⟩
    | mergeRemote collection key remoteDoc who => trivial
    | localDigest collection => trivial
  | observed remote =>
    cases request with
    | mergeRemote collection key remoteDoc who =>
      change Stage.Of _ (e.mergeCurrent collection key remote)
      unfold mergeCurrent
      cases e.currentDocument collection key with
      | error failure => trivial
      | ok previous => exact ⟨rfl, rfl, remote, h, rfl, rfl⟩
    | putDocument collection key newJson who => trivial
    | localDigest collection => trivial
  | done w => cases request <;> exact h
  | returned answer => cases request <;> exact h
  | scanned rows => cases request <;> trivial
  | digested entries => cases request <;> exact h

end NodeEngine

/-! ## One write -/

namespace RowWrite

variable {w o : RowWrite} {stored : RowWrite → Prop} {request : EngineCall} {d d' : CrdtValue}

/-- A write is an update of the document it has read, or a merge into it. -/
lemma Of.cases (h : w.Of request) :
    (∃ newJson ts seq, w.origin = .update newJson ts ∧
      w.doc = (updatedDocument w.previous newJson ts seq).1) ∨
    ∃ remote, remote.depth ≤ kMaxDecodeDepth + 1 ∧ w.origin = .remote remote ∧
      w.doc = w.previous.elim remote (CrdtValue.merge · remote) := by
  cases request with
  | putDocument collection key newJson who =>
    obtain ⟨-, -, ts, seq, horigin, hdoc⟩ := h
    exact Or.inl ⟨newJson, ts, seq, horigin, hdoc⟩
  | mergeRemote collection key remoteDoc who =>
    obtain ⟨-, -, remote, hdecode, horigin, hdoc⟩ := h
    exact Or.inr ⟨remote, depth_le_of_decodeAt hdecode, horigin, hdoc⟩
  | localDigest collection => exact h.elim

lemma Safe.update (h : w.Safe stored) {newJson : JsonValue} {ts : HLCTimestamp}
    (ho : w.origin = .update newJson ts) :
    (newJson.UniqueKeys ∧ newJson.elemCount ≤ 2 ^ 64 ∧ newJson.depth ≤ kMaxDecodeDepth + 1) ∧
      (∀ v ∈ w.previous, v.All (Sound (· < ts))) ∧
      ∀ o, stored o → o.contribution.All (Sound (· < ts)) ∧
        ∀ v ∈ w.previous, writeCovers v newJson o.contribution = true := by
  unfold Safe at h
  rwa [ho] at h

lemma Safe.remote (h : w.Safe stored) {remote : CrdtValue} (ho : w.origin = .remote remote) :
    remote.WellFormed ∧ (∀ v ∈ w.previous, v.WellFormed) ∧
      ∀ o, stored o →
        (∀ v ∈ w.previous, LwwTree.Spares v.denote remote.denote o.contribution.denote) ∧
        ∀ newJson ts, o.origin = .update newJson ts → StampsAgree remote o.doc := by
  unfold Safe at h
  rwa [ho] at h

lemma contribution_update {newJson : JsonValue} {ts : HLCTimestamp}
    (h : w.origin = .update newJson ts) : w.contribution = w.doc := by
  rw [contribution, h]

lemma contribution_remote {remote : CrdtValue} (h : w.origin = .remote remote) :
    w.contribution = remote := by
  rw [contribution, h]

lemma Preserved.congr (h : w.Preserved d) (hd : d.denote = d'.denote) : w.Preserved d' :=
  ⟨h.wellFormed, hd ▸ h.absorbs, fun j ts ho => hd ▸ h.agree j ts ho, h.layered⟩

lemma wellFormed_doc (hof : w.Of request) (hsafe : w.Safe stored) : w.doc.WellFormed := by
  rcases hof.cases with ⟨newJson, ts, seq, ho, hdoc⟩ | ⟨remote, -, ho, hdoc⟩
  · obtain ⟨⟨hkeys, hcount, -⟩, hprev, -⟩ := hsafe.update ho
    rw [hdoc]
    cases hp : w.previous with
    | none =>
      have hsound : (fromJson ts newJson seq).1.All (Sound fun _ => True) :=
        all_sound_fromJson trivial hkeys hcount seq
      exact wellFormed_of_sound hsound
    | some v => exact wellFormed_apply (hprev v hp) hkeys hcount seq
  · obtain ⟨hremote, hprev, -⟩ := hsafe.remote ho
    rw [hdoc]
    cases hp : w.previous with
    | none => exact hremote
    | some v => exact (hprev v hp).merge hremote

lemma depth_doc (hof : w.Of request) (hsafe : w.Safe stored)
    (hprev : ∀ v ∈ w.previous, v.depth ≤ kMaxDecodeDepth + 1) :
    w.doc.depth ≤ kMaxDecodeDepth + 1 := by
  rcases hof.cases with ⟨newJson, ts, seq, ho, hdoc⟩ | ⟨remote, hdepth, ho, hdoc⟩
  · rw [hdoc]
    exact depth_updatedDocument_le hprev (hsafe.update ho).1.2.2
  · rw [hdoc]
    cases hp : w.previous with
    | none => exact hdepth
    | some v => exact depth_merge_le (hprev v hp) hdepth

/-- A write contributes to the document it writes. -/
lemma preserved_doc (hof : w.Of request) (hsafe : w.Safe stored) : w.Preserved w.doc := by
  have hdocwf := wellFormed_doc hof hsafe
  rcases hof.cases with ⟨newJson, ts, seq, ho, hdoc⟩ | ⟨remote, -, ho, hdoc⟩
  · have hc := contribution_update ho
    refine ⟨hc ▸ hdocwf, hc ▸ LwwTree.Absorbs.refl _, fun _ _ _ => LwwTree.Compat.refl _,
      fun j ts' ho' => ?_⟩
    obtain ⟨rfl, rfl⟩ := Origin.update.inj (ho.symm.trans ho')
    rw [hdoc]
    cases hp : w.previous with
    | none => exact layered_fromJson newJson seq
    | some v =>
      exact layered_apply (All.mono ((hsafe.update ho).2.1 v hp) fun _ hx => hx.2.2) newJson seq
  · have hc := contribution_remote ho
    obtain ⟨hremote, hprev, -⟩ := hsafe.remote ho
    have hnot : ∀ j ts, w.origin ≠ .update j ts := fun j ts h => by
      rw [ho] at h
      cases h
    refine ⟨hc ▸ hremote, ?_, fun j ts h => absurd h (hnot j ts),
      fun j ts h => absurd h (hnot j ts)⟩
    rw [hc, hdoc]
    cases hp : w.previous with
    | none => exact LwwTree.Absorbs.refl _
    | some v =>
      change LwwTree.Absorbs (CrdtValue.merge v remote).denote remote.denote
      rw [denote_merge (hprev v hp) hremote]
      exact LwwTree.absorbs_merge_right _ _

/-- **A safe write keeps** what an earlier one contributed. -/
lemma Preserved.next (h : o.Preserved d) (hof : w.Of request) (hsafe : w.Safe stored)
    (ho : stored o) (hprev : w.previous = some d) : o.Preserved w.doc := by
  refine ⟨h.wellFormed, ?_, fun j ts hj => ?_, h.layered⟩
  · rcases hof.cases with ⟨newJson, ts, seq, horigin, hdoc⟩ | ⟨remote, -, horigin, hdoc⟩
    · obtain ⟨⟨hkeys, hcount, -⟩, hsound, hall⟩ := hsafe.update horigin
      obtain ⟨hosound, hcovers⟩ := hall o ho
      rw [hdoc, hprev]
      exact (absorbs_apply (hsound d hprev) hkeys hcount seq hosound h.absorbs).mpr
        (hcovers d hprev)
    · obtain ⟨hremote, hwf, hall⟩ := hsafe.remote horigin
      rw [hdoc, hprev]
      change LwwTree.Absorbs (CrdtValue.merge d remote).denote _
      rw [denote_merge (hwf d hprev) hremote]
      exact (LwwTree.absorbs_merge_iff h.absorbs).mpr ((hall o ho).1 d hprev)
  · rcases hof.cases with ⟨newJson, ts', seq, horigin, hdoc⟩ | ⟨remote, -, horigin, hdoc⟩
    · obtain ⟨-, hsound, hall⟩ := hsafe.update horigin
      have hosound := (hall o ho).1
      rw [contribution_update hj] at hosound
      rw [hdoc, hprev]
      exact compat_apply newJson seq (wellFormed_of_sound (hsound d hprev)) (h.agree j ts hj)
        (avoids_denote (All.mono hosound fun _ hx => hx.2.2.ne))
    · obtain ⟨hremote, hwf, hall⟩ := hsafe.remote horigin
      rw [hdoc, hprev]
      change LwwTree.Compat (CrdtValue.merge d remote).denote _
      rw [denote_merge (hwf d hprev) hremote]
      exact (h.agree j ts hj).merge_left ((hall o ho).2 j ts hj).compat

end RowWrite

/-! ## All calls -/

namespace EngineProcess

variable {c : Crypto} {collection key : Bytes} {p : EngineProcess}

/-- The write of a call whose row of the key is in the backend. -/
def Stored (collection key : Bytes) (p : EngineProcess) (w : RowWrite) : Prop :=
  ∃ call ∈ p.calls, call.2.stored = some w ∧ w.collection = collection ∧ w.key = key

/-- A write of the key finds the document its call has read, and keeps what was stored before. -/
def Undisturbed (collection key : Bytes) (p : EngineProcess) : Event → Prop
  | .call _ => True
  | .advance i _ _ => ∀ request w, p.calls[i]? = some (request, .writing w) →
      w.collection = collection → w.key = key →
        p.engine.currentDocument collection key = .ok w.previous ∧
          w.Safe (p.Stored collection key)

/-- The stored document has what every stored write contributed. -/
structure Intact (collection key : Bytes) (p : EngineProcess) : Prop where
  of : ∀ call ∈ p.calls, Stage.Of call.1 call.2
  preserved : ∀ w, p.Stored collection key w → ∃ d,
    p.engine.currentDocument collection key = .ok (some d) ∧ d.WellFormed ∧ w.Preserved d

/-- A step that stores nothing new and leaves the row alone keeps everything. -/
lemma Intact.frame {p' : EngineProcess} (h : p.Intact collection key)
    (hof : ∀ call ∈ p'.calls, Stage.Of call.1 call.2)
    (hstored : ∀ w, p'.Stored collection key w → p.Stored collection key w)
    (hrow : p'.engine.storage.getRaw collection key = p.engine.storage.getRaw collection key) :
    p'.Intact collection key := by
  refine ⟨hof, fun w hw => ?_⟩
  rw [currentDocument_congr hrow]
  exact h.preserved w (hstored w hw)

/-- The write of the key. -/
lemma Intact.write {storage : StorageEngine} {request : EngineCall} {w : RowWrite} {put : PutEnv}
    {calls : List (EngineCall × Stage)} (h : p.Intact collection key) (hof : w.Of request)
    (hw : w.collection = collection ∧ w.key = key)
    (hcur : p.engine.currentDocument collection key = .ok w.previous)
    (hsafe : w.Safe (p.Stored collection key))
    (hput : p.engine.storage.putRaw c put w.collection w.key w.doc.encode = (.ok (), storage))
    (hcalls : ∀ call ∈ calls, Stage.Of call.1 call.2)
    (hstored : ∀ o, Stored collection key ⟨{ p.engine with storage }, calls⟩ o →
      p.Stored collection key o ∨ o = w) :
    Intact collection key ⟨{ p.engine with storage }, calls⟩ := by
  obtain ⟨rfl, rfl⟩ := hw
  have hwf := RowWrite.wellFormed_doc hof hsafe
  have hlen : w.doc.encode.length < 2 ^ 32 := by
    have hmax := StorageEngine.length_of_checkPut (StorageEngine.putRaw_eq_ok hput).1
    rw [kMaxDocBytes] at hmax
    omega
  have hdepth := RowWrite.depth_doc hof hsafe (depth_currentDocument hcur)
  have hrow : storage.getRaw w.collection w.key = .ok w.doc.encode := by
    rw [StorageEngine.getRaw_putRaw hput, if_pos rfl]
  have hdenote : w.doc.denote = w.doc.canon.denote := (denote_canon hwf).symm
  refine ⟨hcalls, fun o ho => ⟨w.doc.canon, currentDocument_of_row hrow hdepth hlen,
    hwf.canon, RowWrite.Preserved.congr ?_ hdenote⟩⟩
  rcases hstored o ho with hold | rfl
  · -- what was stored before was in the document this call has read
    obtain ⟨d, hd, -, hpres⟩ := h.preserved o hold
    exact hpres.next hof hsafe hold (Except.ok.inj (hcur.symm.trans hd))
  · exact RowWrite.preserved_doc hof hsafe

lemma intact_step (p : EngineProcess) (event : Event) (hok : Undisturbed collection key p event)
    (h : p.Intact collection key) : (step c p event).1.Intact collection key := by
  cases event with
  | call request =>
    refine h.frame (fun call hcall => ?_) (fun w hw => ?_) rfl
    · rcases mem_append.mp hcall with hcall | hcall
      · exact h.of call hcall
      · obtain rfl := mem_singleton.mp hcall
        cases request <;> trivial
    · obtain ⟨call, hcall, hst, hkey⟩ := hw
      rcases mem_append.mp hcall with hcall | hcall
      · exact ⟨call, hcall, hst, hkey⟩
      · obtain rfl := mem_singleton.mp hcall
        cases hst
  | advance i env appended =>
    cases hi : p.calls[i]? with
    | none =>
      rw [step, hi]
      exact h
    | some call =>
      obtain ⟨request, stage⟩ := call
      have hmem : (request, stage) ∈ p.calls := mem_of_getElem? hi
      have hof : Stage.Of request stage := h.of _ hmem
      have hcalls : ∀ call ∈ p.calls.set i (request,
          (p.engine.advance c env appended request stage).1), Stage.Of call.1 call.2 := by
        intro call hcall
        rcases mem_or_eq_of_mem_set hcall with hcall | rfl
        · exact h.of call hcall
        · exact advance_of hof
      have hstep : (step c p (.advance i env appended)).1 =
          ⟨(p.engine.advance c env appended request stage).2, p.calls.set i (request,
            (p.engine.advance c env appended request stage).1)⟩ := by
        rw [step, hi]
      rw [hstep]
      rcases p.engine.advance_rows c env appended request stage with
        ⟨w, rfl, hadvance⟩ | ⟨hstorage, hsame⟩
      · rw [hadvance] at hcalls ⊢
        rw [writeCall] at hcalls ⊢
        have hw : w.Of request := by cases request <;> exact hof
        rcases hput : p.engine.storage.putRaw c env.put w.collection w.key w.doc.encode with
          ⟨st | _, storage⟩
        · rw [hput] at hcalls
          refine h.frame hcalls (fun o ho => ?_)
            (StorageEngine.getRaw_putRaw_of_error hput collection key)
          obtain ⟨call, hcall, hst, hkey⟩ := ho
          rcases mem_or_eq_of_mem_set hcall with hcall | rfl
          · exact ⟨call, hcall, hst, hkey⟩
          · cases hst
        · rw [hput] at hcalls
          have hstored : ∀ o, Stored collection key ⟨{ p.engine with storage },
              p.calls.set i (request, .written w)⟩ o →
                p.Stored collection key o ∨ o = w := by
            rintro o ⟨call, hcall, hst, hkey⟩
            rcases mem_or_eq_of_mem_set hcall with hcall | rfl
            · exact Or.inl ⟨call, hcall, hst, hkey⟩
            · exact Or.inr (Option.some.inj hst).symm
          by_cases hkey : w.collection = collection ∧ w.key = key
          · obtain ⟨hcur, hsafe⟩ := hok request w hi hkey.1 hkey.2
            exact h.write hw hkey hcur hsafe hput hcalls hstored
          · -- the row of another key
            refine h.frame hcalls (fun o ho => ?_) ?_
            · refine (hstored o ho).resolve_right ?_
              rintro rfl
              obtain ⟨-, -, -, hokey⟩ := ho
              exact hkey hokey
            · have hne : ¬ (collection, key) = (w.collection, w.key) := fun heq =>
                hkey ⟨(Prod.mk.inj heq).1.symm, (Prod.mk.inj heq).2.symm⟩
              change storage.getRaw collection key = _
              rw [StorageEngine.getRaw_putRaw hput, if_neg hne]
      · refine h.frame hcalls (fun o ho => ?_) (by rw [hstorage])
        obtain ⟨call, hcall, hst, hkey⟩ := ho
        rcases mem_or_eq_of_mem_set hcall with hcall | rfl
        · exact ⟨call, hcall, hst, hkey⟩
        · exact ⟨(request, stage), hmem, hsame ▸ hst, hkey⟩

/-- Two merges that both read before one of them writes. -/
def overlappingMerges : List Event :=
  [.call (sampleMerge "x" 1), .call (sampleMerge "y" 2),
    sampleAdvance 0, sampleAdvance 0, sampleAdvance 1, sampleAdvance 1,
    sampleAdvance 0, sampleAdvance 0, sampleAdvance 1, sampleAdvance 1]

/-- A step that is not a write is undisturbed. -/
lemma undisturbed_of_stage {i : ℕ} {env : NodeEngine.WriteEnv} {appended : Except Status Unit}
    {request : EngineCall} (stage : Stage) (hi : p.calls[i]? = some (request, stage))
    (h : ∀ w, stage ≠ .writing w) : Undisturbed collection key p (.advance i env appended) := by
  intro request' w hw
  rw [hi] at hw
  exact absurd (Prod.mk.inj (Option.some.inj hw)).2 (h w)

/-- Behind a write there is no other one of the same call. -/
lemma undisturbed_behind_write {i : ℕ} {env env' : NodeEngine.WriteEnv}
    {appended appended' : Except Status Unit} {request : EngineCall} (w : RowWrite)
    (hi : p.calls[i]? = some (request, .writing w)) :
    Undisturbed collection key (step c p (.advance i env appended)).1
      (.advance i env' appended') := by
  have hadvance : p.engine.advance c env appended request (.writing w) =
      p.engine.writeCall c env.put w := by
    cases request <;> rfl
  have hlt : i < p.calls.length := (List.getElem?_eq_some_iff.mp hi).1
  have hstage : (step c p (.advance i env appended)).1.calls[i]? =
      some (request, (p.engine.writeCall c env.put w).1) := by
    rw [step, hi]
    dsimp only
    rw [hadvance, getElem?_set_self hlt]
  refine undisturbed_of_stage _ hstage fun w' => ?_
  unfold writeCall
  rcases p.engine.storage.putRaw c env.put w.collection w.key w.doc.encode with ⟨st | _, storage⟩
  · exact nofun
  · exact nofun

end EngineProcess

end DeSentry
