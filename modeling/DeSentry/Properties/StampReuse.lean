import DeSentry.Properties.ClockMonotone
import DeSentry.Properties.DocumentTags
import DeSentry.Properties.ReadYourWrites

/-!
# Stamps across restarts

The clock of a node is in memory; `hlc_clock` holds the position it had at the last save, and a
save happens only when the physical time has moved by a second or every 512 calls.  A run mixes
`PutDocument`, `MergeRemote` and crashes, each crash followed by `Open` on whatever the disk holds.
A crash inside a call is a call whose clock save did not commit, followed by a restart.

A restart takes the clock back to the saved position.  From there on a write gets a fresh stamp if
the clock has caught up with the highest position it had before any crash, or the wall clock has
passed that position (`CaughtUp`), and if `Now` does not wrap; then no stamp and no tag is ever
issued twice (`stamps_never_reused`).

Neither is guaranteed.  `Observe` accepts stamps up to five minutes ahead; the clock then stands
there, writes only count up its logical part, and saves stop.  A crash and a restart within those
five minutes repeat the stamps and tags of the unsaved writes (`stamp_reused_after_restart`).
-/

namespace DeSentry

open ByteCodec Runs CrdtValue HybridLogicalClock

/-! ## Runs of a node -/

/-- A call on a node, or a crash and a restart with what `Open` finds. -/
inductive NodeCall where
  | put (env : NodeEngine.WriteEnv) (collection key : Bytes) (doc : JsonValue) (who : Requestor)
  | merge (env : NodeEngine.WriteEnv) (appended : Except Status Unit)
      (collection key remoteDoc : Bytes) (who : Requestor)
  | restart (options : NodeEngine.Options) (storage : StorageEngine)
      (entries : List (Bytes × TransitEnvelope))

/-- A write that reached the ledger: its stamp, the document before and after, and what `NextTag`
returned in between. -/
structure DocumentWrite where
  stamp : HLCTimestamp
  previous : Option CrdtValue
  updated : CrdtValue
  drawnTags : List Bytes

namespace DocumentWrite

/-- The tags of the document before the write. -/
def oldTags (w : DocumentWrite) : List Bytes := w.previous.elim [] CrdtValue.tags

/-- The elements of the new document have tags of the old one, and the drawn ones, each once. -/
def TagsDrawn (w : DocumentWrite) : Prop :=
  w.drawnTags.Nodup ∧
    ∃ kept, (∀ t ∈ kept, t ∈ w.oldTags) ∧ w.updated.tags.Perm (kept ++ w.drawnTags)

/-- Two writes share neither a stamp nor a drawn tag. -/
def Apart (w w' : DocumentWrite) : Prop :=
  w.stamp ≠ w'.stamp ∧ ∀ t ∈ w.drawnTags, t ∉ w'.drawnTags

end DocumentWrite

/-- A node, and the highest position its clock had at an earlier crash. -/
structure NodeRun where
  node : NodeEngine
  lost : ℕ ×ₗ ℕ

namespace NodeEngine

variable (e : NodeEngine)

/-- The write of a `PutDocument`, if it passes its checks and the document fits into a page. -/
def writeOf (env : WriteEnv) (collection key : Bytes) (doc : JsonValue) (who : Requestor) :
    Option DocumentWrite :=
  if collection = kTransitCollection then none
  else if !e.canWrite collection who then none
  else
    match e.currentDocument collection key with
    | .error _ => none
    | .ok previous =>
      let ts := (e.now env.wall).2
      let (updated, tagCounter) := updatedDocument previous doc ts e.tagCounter
      match StorageEngine.checkPut key updated.encode with
      | .error _ => none
      | .ok () =>
        some ⟨ts, previous, updated, drawn ts e.tagCounter (tagCounter - e.tagCounter).toNat⟩

end NodeEngine

/-- One call, and the write it made. -/
def nodeStep (c : Crypto) (s : NodeRun) : NodeCall → NodeRun × Option DocumentWrite
  | .put env collection key doc who =>
    ({ s with node := (s.node.putDocument c env collection key doc who).2 },
      s.node.writeOf env collection key doc who)
  | .merge env appended collection key remoteDoc who =>
    ({ s with node := (s.node.mergeRemote c env appended collection key remoteDoc who).2 }, none)
  | .restart options storage entries =>
    (⟨NodeEngine.boot { options with nodeId := s.node.nodeId } storage entries s.node.clockFile,
      max s.lost s.node.clock.position⟩, none)

/-- A write finds the clock, or the wall clock, past every position from before a crash, and `Now`
does not wrap. -/
def CaughtUp (s : NodeRun) : NodeCall → Prop
  | .put env _ _ _ _ => s.node.clock.NoWrap (.now env.wall) ∧
      (s.lost ≤ s.node.clock.position ∨ (ofLex s.lost).1 < env.wall.toNat)
  | .merge .. => True
  | .restart .. => True

/-! ## What one call does to the clock -/

namespace NodeEngine

variable {e : NodeEngine} {c : Crypto}

@[simp] lemma clock_persistClockIfDue (committed : Bool) :
    (e.persistClockIfDue committed).clock = e.clock := by
  unfold persistClockIfDue commitClock
  dsimp only
  split_ifs <;> rfl

@[simp] lemma clock_noteDigest (collection key doc : Bytes) :
    (e.noteDigest c collection key doc).clock = e.clock := by
  unfold noteDigest
  split <;> rfl

variable (env : WriteEnv)

@[simp] lemma clock_stage (collection key doc : Bytes) (hlc : HLCTimestamp) :
    (e.stage c env collection key doc hlc).clock = e.clock := by
  unfold stage
  split_ifs <;> rfl

/-- A `PutDocument` leaves the clock alone, or asks it once, and writes with the answer. -/
lemma clock_putDocument (collection key : Bytes) (doc : JsonValue) (who : Requestor) :
    ((e.putDocument c env collection key doc who).2.clock = e.clock ∧
      e.writeOf env collection key doc who = none) ∨
    ((e.putDocument c env collection key doc who).2.clock = (e.clock.now env.wall).1 ∧
      ∀ w ∈ e.writeOf env collection key doc who, w.stamp = (e.clock.now env.wall).2) := by
  unfold putDocument writeOf
  split_ifs with htransit hwrite
  · exact Or.inl ⟨rfl, rfl⟩
  · exact Or.inl ⟨rfl, rfl⟩
  · cases e.currentDocument collection key with
    | error failure => exact Or.inl ⟨rfl, rfl⟩
    | ok previous =>
      refine Or.inr ⟨?_, ?_⟩
      · change (e.writeDocument c env collection key doc previous).2.clock = _
        rw [writeDocument_eq]
        dsimp only
        split
        · rfl
        · rw [clock_persistClockIfDue, clock_noteDigest, clock_stage]
          rfl
      · intro w hw
        dsimp only at hw
        split at hw
        · exact absurd hw (Option.not_mem_none w)
        · obtain rfl := Option.some.inj hw
          rfl

lemma clock_writeMerged (collection key : Bytes) (remote : CrdtValue) :
    (e.writeMerged c env collection key remote).2.clock = e.clock := by
  obtain ⟨_, _, _, _, _, h, -⟩ := e.writeMerged_eq c env collection key remote
  rw [h]

lemma clock_mergeDecoded (collection key : Bytes) (remote : CrdtValue) :
    (e.mergeDecoded c env collection key remote).2.clock =
      (e.clock.observe env.wall remote.maxTimestamp).1 := by
  obtain ⟨clock, hclock, ⟨st, h⟩ | h⟩ := e.mergeDecoded_cases c env collection key remote
  · rw [h, ← hclock]
  · rw [h, clock_writeMerged, ← hclock]

/-- A `MergeRemote` leaves the clock alone or lets it observe one stamp. -/
lemma clock_mergeRemote (appended : Except Status Unit) (collection key remoteDoc : Bytes)
    (who : Requestor) :
    (e.mergeRemote c env appended collection key remoteDoc who).2.clock = e.clock ∨
      ∃ remote, (e.mergeRemote c env appended collection key remoteDoc who).2.clock =
        (e.clock.observe env.wall remote).1 := by
  unfold mergeRemote
  by_cases htransit : collection = kTransitCollection
  · left
    split_ifs
    · rfl
    · cases TransitEnvelope.decode remoteDoc <;> rfl
  rw [if_neg htransit]
  by_cases hwrite : (!e.canWrite collection who) = true
  · rw [if_pos hwrite]
    exact Or.inl rfl
  rw [if_neg hwrite]
  cases CrdtValue.decode remoteDoc with
  | error what => exact Or.inl rfl
  | ok remote => exact Or.inr ⟨remote.maxTimestamp, clock_mergeDecoded env collection key remote⟩

lemma draws_updatedDocument (previous : Option CrdtValue) (doc : JsonValue) (ts : HLCTimestamp)
    (seq : UInt64) :
    Draws ts seq (updatedDocument previous doc ts seq).2 (updatedDocument previous doc ts seq).1.tags
      (previous.elim [] CrdtValue.tags) doc.elemCount := by
  cases previous with
  | none => exact draws_fromJson ts doc seq
  | some previous => exact draws_apply ts previous doc seq

/-- The write of a call, if there is one, has drawn the tags it created under its stamp. -/
lemma drawn_writeOf {env : WriteEnv} {collection key : Bytes} {doc : JsonValue} {who : Requestor}
    {w : DocumentWrite} (h : w ∈ e.writeOf env collection key doc who) :
    w.TagsDrawn ∧ ∀ t ∈ w.drawnTags, ∃ m, t = nextTag w.stamp m := by
  unfold writeOf at h
  split_ifs at h
  · cases h
  · cases h
  · cases hcur : e.currentDocument collection key with
    | error failure =>
      rw [hcur] at h
      cases h
    | ok previous =>
      rw [hcur] at h
      dsimp only at h
      cases hcheck : StorageEngine.checkPut key
          (updatedDocument previous doc (e.now env.wall).2 e.tagCounter).1.encode with
      | error st =>
        rw [hcheck] at h
        cases h
      | ok =>
        rw [hcheck] at h
        obtain rfl := Option.some.inj h
        have hlen := (length_tags_le _).trans (StorageEngine.length_of_checkPut hcheck)
        have hdraws := draws_updatedDocument previous doc (e.now env.wall).2 e.tagCounter
        refine ⟨⟨nodup_drawn (UInt64.toNat_lt _).le _ _,
          hdraws.exact (hlen.trans_lt (by decide))⟩, fun t ht => ?_⟩
        obtain ⟨i, -, rfl⟩ := List.mem_map.mp ht
        exact ⟨_, rfl⟩

end NodeEngine

/-! ## Runs -/

lemma wall_le_lastPhysical_now (clock : HybridLogicalClock) (wall : UInt64) :
    wall.toNat ≤ (clock.now wall).1.lastPhysical.toNat := by
  unfold now
  split_ifs with hwall
  · exact le_rfl
  · exact UInt64.le_iff_toNat_le.mp (UInt64.not_lt.mp hwall)

lemma lt_position_of_caughtUp {clock : HybridLogicalClock} {lost : ℕ ×ₗ ℕ} {wall : UInt64}
    (hwrap : clock.NoWrap (.now wall))
    (h : lost ≤ clock.position ∨ (ofLex lost).1 < wall.toNat) :
    max lost clock.position < (clock.now wall).1.position := by
  have hpos := lt_position_now hwrap
  refine max_lt ?_ hpos
  rcases h with h | h
  · exact h.trans_lt hpos
  · refine Prod.Lex.toLex_lt_toLex.mpr (Or.inl (h.trans_le ?_))
    exact wall_le_lastPhysical_now clock wall

/-- The run has moved past the stamp of a write. -/
def NodeRun.Above (s : NodeRun) (w : Option DocumentWrite) : Prop :=
  ∀ x ∈ w, x.stamp.position ≤ max s.lost s.node.clock.position ∧
    ∀ t ∈ x.drawnTags, ∃ m, t = nextTag x.stamp m

lemma DocumentWrite.apart_of_position_lt {w w' : DocumentWrite}
    (h : w.stamp.position < w'.stamp.position)
    (hw : ∀ t ∈ w.drawnTags, ∃ m, t = nextTag w.stamp m)
    (hw' : ∀ t ∈ w'.drawnTags, ∃ m, t = nextTag w'.stamp m) : w.Apart w' := by
  have hne : w.stamp ≠ w'.stamp := fun heq => h.ne (congrArg HLCTimestamp.position heq)
  refine ⟨hne, fun t ht ht' => ?_⟩
  obtain ⟨m, rfl⟩ := hw t ht
  obtain ⟨m', hm'⟩ := hw' _ ht'
  exact hne (nextTag_inj hm').1

/-- No call takes the run back. -/
lemma max_position_le_nodeStep {c : Crypto} {s : NodeRun} {call : NodeCall} (h : CaughtUp s call) :
    max s.lost s.node.clock.position ≤
      max (nodeStep c s call).1.lost (nodeStep c s call).1.node.clock.position := by
  cases call with
  | put env collection key doc who =>
    refine max_le_max le_rfl ?_
    rcases NodeEngine.clock_putDocument env collection key doc who with
      ⟨hclock, -⟩ | ⟨hclock, -⟩
    · exact (congrArg position hclock).ge
    · exact (lt_position_now h.1).le.trans
        (congrArg position hclock).ge
  | merge env appended collection key remoteDoc who =>
    refine max_le_max le_rfl ?_
    rcases NodeEngine.clock_mergeRemote env appended collection key remoteDoc
      who with hclock | ⟨remote, hclock⟩
    · exact (congrArg position hclock).ge
    · exact (position_observe _ _ _).1.trans
        (congrArg position hclock).ge
  | restart options storage entries => exact le_max_left _ _

/-- A write is stamped with the position the clock moves to. -/
lemma stamp_of_nodeStep {c : Crypto} {s : NodeRun} {call : NodeCall} {w : DocumentWrite}
    (h : CaughtUp s call) (hw : w ∈ (nodeStep c s call).2) :
    max s.lost s.node.clock.position < w.stamp.position ∧
      w.stamp.position = (nodeStep c s call).1.node.clock.position ∧
      w.TagsDrawn ∧ ∀ t ∈ w.drawnTags, ∃ m, t = nextTag w.stamp m := by
  cases call with
  | merge env appended collection key remoteDoc who => exact absurd hw (Option.not_mem_none w)
  | restart options storage entries => exact absurd hw (Option.not_mem_none w)
  | put env collection key doc who =>
    have hw' : w ∈ s.node.writeOf env collection key doc who := hw
    rcases NodeEngine.clock_putDocument env collection key doc who with
      ⟨-, hnone⟩ | ⟨hclock, hstamp⟩
    · rw [hnone] at hw'
      exact absurd hw' (Option.not_mem_none w)
    · have hpos : w.stamp.position = (s.node.clock.now env.wall).1.position := by
        rw [hstamp w hw', position_now]
      refine ⟨hpos ▸ lt_position_of_caughtUp h.1 h.2, ?_, NodeEngine.drawn_writeOf hw'⟩
      exact hpos.trans (congrArg position hclock).symm

/-- The writes of a run that starts with the node `e`. -/
def writesOf (c : Crypto) (e : NodeEngine) (calls : List NodeCall) : List DocumentWrite :=
  (outputs (nodeStep c) ⟨e, toLex (0, 0)⟩ calls).reduceOption

/-- **Stamps and tags are not reused**, across any number of crashes, in a run in which every write
finds the clock or the wall clock past all positions from before a crash. -/
theorem stamps_never_reused (c : Crypto) (e : NodeEngine) (calls : List NodeCall)
    (h : Guarded (nodeStep c) CaughtUp ⟨e, toLex (0, 0)⟩ calls) :
    (writesOf c e calls).Pairwise DocumentWrite.Apart ∧
      ∀ w ∈ writesOf c e calls, w.TagsDrawn := by
  constructor
  · refine List.pairwise_filterMap.mpr (pairwise_outputs NodeRun.Above ?_ ?_ ?_ h)
    · intro s call o hok habove x hx
      exact ⟨(habove x hx).1.trans (max_position_le_nodeStep hok), (habove x hx).2⟩
    · intro s call hok x hx
      obtain ⟨-, hpos, -, hdrawn⟩ := stamp_of_nodeStep hok hx
      exact ⟨hpos.le.trans (le_max_right _ _), hdrawn⟩
    · intro s call o hok habove x hx y hy
      obtain ⟨hlt, -, -, hdrawn⟩ := stamp_of_nodeStep hok hy
      exact DocumentWrite.apart_of_position_lt ((habove x hx).1.trans_lt hlt) (habove x hx).2 hdrawn
  · intro w hw
    obtain ⟨o, ho, hwo⟩ := List.mem_filterMap.mp hw
    have hall : ∀ o ∈ outputs (nodeStep c) ⟨e, toLex (0, 0)⟩ calls,
        ∀ w ∈ o, w.TagsDrawn := by
      refine forall_outputs (fun s call x hx => ?_) _ _
      cases call with
      | put env collection key doc who => exact (NodeEngine.drawn_writeOf hx).1
      | merge env appended collection key remoteDoc who => exact absurd hx (Option.not_mem_none x)
      | restart options storage entries => exact absurd hx (Option.not_mem_none x)
    exact hall o ho w hwo

/-! ## A reused stamp -/

/-- The remote document of a node whose clock runs five minutes ahead. -/
def sampleAhead : Bytes := (CrdtValue.object ⟨305000, 0, [98]⟩ false []).encode

/-- A local write of a one-item array. -/
def sampleCall (wall : UInt64) (item : Int64) : NodeCall :=
  .put { wall } (text "c") (text "k") (sampleArray [item]) ⟨[110], true⟩

/-- A merge of the remote document, then a write in the next millisecond. -/
def sampleBeforeCrash : List NodeCall :=
  [.merge { wall := 5000 } (.ok ()) (text "c") (text "r") sampleAhead ⟨[98], false⟩,
    sampleCall 5001 7]

/-- The node at the crash. -/
def sampleCrashed : NodeEngine :=
  (final (nodeStep sampleCrypto) ⟨sampleNode, toLex (0, 0)⟩ sampleBeforeCrash).node

/-- The crash, a restart that finds everything stored, and a second write. -/
def sampleAfterCrash (wall : UInt64) : List NodeCall :=
  [.restart { nodeId := [110] } sampleCrashed.storage [], sampleCall wall 8]

/-- The writes before and after the crash carry the same stamp and draw the same tag: the merge
saved the clock, the write did not, and five seconds later the wall clock is still behind. -/
theorem stamp_reused_after_restart :
    let writes := writesOf sampleCrypto sampleNode (sampleBeforeCrash ++ sampleAfterCrash 10000)
    writes.map DocumentWrite.stamp = [⟨305000, 2, [110]⟩, ⟨305000, 2, [110]⟩] ∧
      writes.map DocumentWrite.drawnTags =
        [[nextTag ⟨305000, 2, [110]⟩ 0], [nextTag ⟨305000, 2, [110]⟩ 0]] := by
  constructor <;> decide +kernel

/-- The same run with a second write after the wall clock has passed the lost position. -/
theorem stamps_never_reused_sample :
    (writesOf sampleCrypto sampleNode (sampleBeforeCrash ++ sampleAfterCrash 305001)).Pairwise
      DocumentWrite.Apart := by
  have h : Guarded (nodeStep sampleCrypto) CaughtUp ⟨sampleNode, toLex (0, 0)⟩
      (sampleBeforeCrash ++ sampleAfterCrash 305001) := by
    refine ⟨trivial, ⟨fun hwrap => ?_, Or.inl ?_⟩, trivial, ⟨fun hwrap => ?_, Or.inr ?_⟩, trivial⟩
    · exact absurd hwrap.2 (by decide +kernel)
    · decide +kernel
    · exact absurd hwrap.2 (by decide +kernel)
    · decide +kernel
  exact (stamps_never_reused sampleCrypto sampleNode _ h).1

end DeSentry
