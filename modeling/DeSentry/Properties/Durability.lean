import DeSentry.Construction.Net.ReceiptTracker
import DeSentry.Framework.Runs

/-!
# What a durability report counts

The broadcast of a `PUT` is out before anybody waits for its receipts.  A receipt that is verified
before `WaitFor` has registered the message is dropped (`early_receipt_dropped`), and since receipts
are told apart by node and key hash, a node that signs two key hashes is listed twice.

The report is right in every run in which the receipts for the message arrive after the
registration, come from other nodes, are about one key, and the tracker is not stopped meanwhile
(`durability_accounted`).
-/

namespace DeSentry

open ByteCodec Runs AssocMap
open List hiding get

namespace DurableWrite

variable {w : DurableWrite} {keyHash : Bytes} {arrived : List MergeReceipt}

/-- The report counts the receipts that arrived, names no node twice, and its number is the number
of nodes. -/
structure Accounts (arrived : List MergeReceipt) (report : DurabilityReport) : Prop where
  counted : ∀ r ∈ arrived, r.applierNode ∈ report.replicas
  nodup : report.replicas.Nodup
  achieved : report.achieved = UInt32.ofNat report.replicas.toFinset.card

/-- A receipt for the message arrives once it is registered, from another node and for the key of
the write; the tracker is not stopped while the call waits. -/
def Timely (keyHash : Bytes) (w : DurableWrite) : WriteEvent → Prop
  | .note r => r.messageId = w.messageId → w.phase ≠ .writing ∧ r.keyHash = keyHash ∧
      r.applierNode ≠ [] ∧ r.applierNode ≠ w.self
  | .stop => w.phase ≠ .waiting
  | _ => True

/-- What a registered wait has collected. -/
structure Collects (node keyHash : Bytes) (arrived : List MergeReceipt) (ws : WaitState) : Prop where
  running : ws.stopped = false
  counted : ∀ r ∈ arrived, r.applierNode ∈ ws.receipts.map (·.applierNode)
  nodup : (ws.receipts.map (·.applierNode)).Nodup
  others : node ∉ ws.receipts.map (·.applierNode)
  sameKey : ∀ r ∈ ws.receipts, r.keyHash = keyHash

/-- What holds in each phase. -/
def Tracks (keyHash : Bytes) (arrived : List MergeReceipt) (w : DurableWrite) : Prop :=
  match w.phase with
  | .writing => get w.tracker.waits w.messageId = none ∧ arrived = []
  | .waiting => ∃ ws, get w.tracker.waits w.messageId = some ws ∧
      Collects w.self keyHash arrived ws
  | .returned report => Accounts arrived report

/-! ## The report -/

variable {ws : WaitState}

lemma accounts_receiptReport (h : Collects w.self keyHash arrived ws) :
    Accounts arrived (w.receiptReport ws.receipts) := by
  have hnodup : (w.receiptReport ws.receipts).replicas.Nodup := nodup_cons.mpr ⟨h.others, h.nodup⟩
  refine ⟨fun r hr => mem_cons_of_mem _ (h.counted r hr), hnodup, ?_⟩
  rw [toFinset_card_of_nodup hnodup]
  change 1 + UInt32.ofNat ws.receipts.length =
    UInt32.ofNat (w.self :: ws.receipts.map (·.applierNode)).length
  rw [length_cons, length_map, Nat.add_comm, UInt32.ofNat_add]
  rfl

lemma accounts_localReport (timedOut : Bool) : Accounts [] (w.localReport timedOut) :=
  ⟨fun _ hr => absurd hr not_mem_nil, nodup_singleton _, rfl⟩

/-! ## The steps -/

variable {t : ReceiptTracker} {r : MergeReceipt} {messageId : Bytes}

/-- A receipt for another message is not seen. -/
lemma get_noteReceipt_other (h : r.messageId ≠ messageId) :
    get (t.noteReceipt r).waits messageId = get t.waits messageId := by
  unfold ReceiptTracker.noteReceipt
  split_ifs with hmalformed
  · rfl
  cases get t.waits r.messageId with
  | none => rfl
  | some ws =>
    dsimp only
    split_ifs
    · rfl
    · exact get_set_of_ne (Ne.symm h)

/-- A receipt for a registered message is collected, or its node is there. -/
lemma collects_noteReceipt {self : Bytes} (hget : get t.waits messageId = some ws)
    (h : Collects self keyHash arrived ws) (hid : messageId ≠ []) (hlen : keyHash.length = 32)
    (hmessage : r.messageId = messageId) (hkey : r.keyHash = keyHash) (hnode : r.applierNode ≠ [])
    (hself : r.applierNode ≠ self) :
    ∃ ws', get (t.noteReceipt r).waits messageId = some ws' ∧
      Collects self keyHash (arrived ++ [r]) ws' := by
  subst hmessage
  have hformed : ¬(r.messageId = [] ∨ r.applierNode = [] ∨ r.keyHash.length ≠ 32) := by
    rw [hkey, hlen]
    simp [hid, hnode]
  have hcounted : ∀ {receipts : List MergeReceipt},
      (∀ x ∈ ws.receipts, x ∈ receipts) → r.applierNode ∈ receipts.map (·.applierNode) →
        ∀ x ∈ arrived ++ [r], x.applierNode ∈ receipts.map (·.applierNode) := by
    intro receipts hsub hr x hx
    rcases mem_append.mp hx with hx | hx
    · exact map_subset _ hsub (h.counted x hx)
    · rw [mem_singleton.mp hx]
      exact hr
  unfold ReceiptTracker.noteReceipt
  rw [if_neg hformed, hget]
  dsimp only
  split_ifs with hdup
  · -- the node has already sent one
    obtain ⟨x, hx, hsame⟩ := any_eq_true.mp hdup
    have happlier : x.applierNode = r.applierNode :=
      of_decide_eq_true (Bool.and_eq_true_iff.mp hsame).1
    refine ⟨ws, hget, h.running, hcounted (fun _ hx => hx) ?_, h.nodup, h.others, h.sameKey⟩
    exact happlier ▸ mem_map_of_mem hx
  · have hnew : r.applierNode ∉ ws.receipts.map (·.applierNode) := by
      intro hmem
      obtain ⟨x, hx, happlier⟩ := mem_map.mp hmem
      refine hdup (any_eq_true.mpr ⟨x, hx, ?_⟩)
      rw [Bool.and_eq_true]
      exact ⟨decide_eq_true happlier, decide_eq_true ((h.sameKey x hx).trans hkey.symm)⟩
    refine ⟨_, get_set_self .., h.running, ?_, ?_, ?_, ?_⟩
    · refine hcounted (fun _ hx => mem_append_left _ hx) ?_
      rw [map_append]
      exact mem_append_right _ (mem_singleton_self _)
    · rw [map_append]
      refine h.nodup.append (nodup_singleton _) ?_
      exact disjoint_singleton.mpr hnew
    · rw [map_append, mem_append, not_or]
      exact ⟨h.others, fun hmem => hself (mem_singleton.mp hmem).symm⟩
    · intro x hx
      rcases mem_append.mp hx with hx | hx
      · exact h.sameKey x hx
      · rw [mem_singleton.mp hx]
        exact hkey

lemma tracks_startWait (h : Tracks keyHash arrived w) (hphase : w.phase = .writing) :
    Tracks keyHash arrived w.startWait := by
  rw [Tracks, hphase] at h
  obtain ⟨hnone, rfl⟩ := h
  unfold startWait
  split_ifs with hzero
  · exact accounts_localReport false
  have hregister : get (w.tracker.register w.messageId w.wantedFromPeers).waits
      w.messageId = some { wanted := w.wantedFromPeers } := by
    unfold ReceiptTracker.register
    rw [hnone]
    exact get_set_self ..
  dsimp only
  rw [hregister]
  dsimp only
  have hpos : ¬ ([] : List MergeReceipt).length ≥ w.wantedFromPeers.toNat := by
    intro hle
    exact hzero (UInt32.toNat_inj.mp (Nat.le_zero.mp hle))
  split_ifs with hge
  · exact absurd hge hpos
  · exact ⟨_, hregister, rfl, fun _ hr => absurd hr not_mem_nil, nodup_nil,
      not_mem_nil, fun _ hr => absurd hr not_mem_nil⟩

lemma tracks_look (h : Tracks keyHash arrived w) (hphase : w.phase = .waiting) (timeout : Bool) :
    Tracks keyHash arrived (w.look timeout) := by
  have hwait := h
  rw [Tracks, hphase] at hwait
  obtain ⟨ws, hget, hcollects⟩ := hwait
  unfold look
  rw [hget]
  dsimp only
  split_ifs
  · unfold finishWith Tracks
    rw [hcollects.running]
    exact accounts_receiptReport hcollects
  · exact h

/-- A receipt, in each phase. -/
lemma tracks_note (hid : w.messageId ≠ []) (hlen : keyHash.length = 32)
    (htimely : Timely keyHash w (.note r)) (h : Tracks keyHash arrived w) :
    Tracks keyHash (arrived ++ (w.step (.note r)).2.toList) (w.step (.note r)).1 := by
  have hstep : w.step (.note r) = ({ w with tracker := w.tracker.noteReceipt r },
      if r.messageId = w.messageId ∧ !w.hasReturned then some r else none) := rfl
  rw [hstep]
  unfold Tracks at h ⊢
  cases hphase : w.phase with
  | returned report =>
    rw [hphase] at h
    have hlate : ¬(r.messageId = w.messageId ∧ (!w.hasReturned) = true) := by
      rw [hasReturned, hphase]
      simp
    rw [if_neg hlate, Option.toList_none, append_nil]
    exact h
  | writing =>
    rw [hphase] at h
    have hother : r.messageId ≠ w.messageId := fun hmessage => (htimely hmessage).1 hphase
    rw [if_neg fun hmessage => hother hmessage.1, Option.toList_none, append_nil]
    exact ⟨(get_noteReceipt_other hother).trans h.1, h.2⟩
  | waiting =>
    rw [hphase] at h
    obtain ⟨ws, hget, hcollects⟩ := h
    by_cases hmessage : r.messageId = w.messageId
    · obtain ⟨-, hkey, hnode, hself⟩ := htimely hmessage
      have harrives : r.messageId = w.messageId ∧ (!w.hasReturned) = true := by
        rw [hasReturned, hphase]
        exact ⟨hmessage, rfl⟩
      rw [if_pos harrives]
      exact collects_noteReceipt hget hcollects hid hlen hmessage hkey hnode hself
    · rw [if_neg fun h => hmessage h.1, Option.toList_none, append_nil]
      exact ⟨ws, (get_noteReceipt_other hmessage).trans hget, hcollects⟩

/-- `Stop` registers nothing. -/
lemma get_stop_none (h : get t.waits messageId = none) :
    get t.stop.waits messageId = none := by
  rw [get_eq_none_iff] at h ⊢
  intro x hx
  obtain ⟨y, hy, rfl⟩ := mem_map.mp hx
  exact h y hy

/-- **One event.** -/
lemma tracks_step {event : WriteEvent} (hid : w.messageId ≠ []) (hlen : keyHash.length = 32)
    (htimely : Timely keyHash w event) (h : Tracks keyHash arrived w) :
    Tracks keyHash (arrived ++ (w.step event).2.toList) (w.step event).1 := by
  cases event with
  | note r => exact tracks_note hid hlen htimely h
  | waitForDurability =>
    unfold step
    dsimp only
    rw [Option.toList_none, append_nil]
    split_ifs with hphase
    · exact tracks_startWait h hphase
    · exact h
  | wake timeout =>
    unfold step
    dsimp only
    rw [Option.toList_none, append_nil]
    split_ifs with hphase
    · exact tracks_look h hphase timeout
    · exact h
  | stop =>
    unfold step Tracks at *
    dsimp only
    rw [Option.toList_none, append_nil]
    cases hphase : w.phase with
    | writing =>
      rw [hphase] at h
      exact ⟨get_stop_none h.1, h.2⟩
    | waiting => exact absurd hphase htimely
    | returned report =>
      rw [hphase] at h
      exact h

/-- The message and the node are those of the request. -/
lemma messageId_step (w : DurableWrite) (event : WriteEvent) :
    (w.step event).1.messageId = w.messageId := by
  cases event with
  | note r => rfl
  | waitForDurability =>
    unfold step startWait
    dsimp only
    split_ifs
    · rfl
    · split
      · rfl
      · split_ifs <;> rfl
    · rfl
  | wake timeout =>
    unfold step look finishWith
    dsimp only
    split_ifs
    · split
      · rfl
      · split_ifs <;> rfl
    · rfl
  | stop => rfl

/-- **A whole run.** -/
lemma tracks_final {events : List WriteEvent} (hid : w.messageId ≠ []) (hlen : keyHash.length = 32)
    (htimely : Guarded step (Timely keyHash) w events) (h : Tracks keyHash arrived w) :
    Tracks keyHash (arrived ++ (outputs step w events).reduceOption) (final step w events) := by
  induction events generalizing w arrived with
  | nil =>
    rw [outputs, reduceOption_nil, append_nil]
    exact h
  | cons event events ih =>
    have hnext := tracks_step hid hlen htimely.1 h
    have hid' : (w.step event).1.messageId ≠ [] := (messageId_step w event).trans_ne hid
    have hrest := ih hid' htimely.2 hnext
    have houtputs : (w.step event).2.toList ++ (outputs step (w.step event).1 events).reduceOption =
        (outputs step w (event :: events)).reduceOption := by
      rw [outputs]
      cases (w.step event).2 <;> rfl
    rw [append_assoc, houtputs] at hrest
    exact hrest

end DurableWrite

open DurableWrite

/-- **The report of a durable write is right** in every run in which the receipts for its message
arrive after the registration, from other nodes and for the key of the write. -/
theorem durability_accounted {w : DurableWrite} {keyHash : Bytes} {events : List WriteEvent}
    {report : DurabilityReport} (hnew : w.phase = .writing)
    (hfresh : w.messageId ≠ [] ∧ get w.tracker.waits w.messageId = none)
    (hlen : keyHash.length = 32) (htimely : Guarded DurableWrite.step (Timely keyHash) w events)
    (hreturned : (final DurableWrite.step w events).phase = .returned report) :
    Accounts (outputs DurableWrite.step w events).reduceOption report := by
  have hstart : Tracks keyHash [] w := by
    rw [Tracks, hnew]
    exact ⟨hfresh.2, rfl⟩
  have hfinal := tracks_final hfresh.1 hlen htimely hstart
  rw [Tracks, hreturned] at hfinal
  exact hfinal

/-! ## Receipts that are lost or counted twice -/

/-- A write with durability two. -/
def sampleDurable : DurableWrite := { self := [110], messageId := [7], durability := 2 }

/-- The receipt of a node. -/
def sampleReceipt (node key : UInt8) : MergeReceipt :=
  { messageId := [7], keyHash := List.replicate 32 key, applierNode := [node], appliedLsn := 0
    signature := [] }

/-- The phase a run ends in. -/
def sampleOutcome (w : DurableWrite) (events : List WriteEvent) : WritePhase :=
  (final DurableWrite.step w events).phase

/-- A receipt that is verified while `PutDocument` is still running is not counted, and the request
times out with its replica in place.  A node that signs two key hashes is listed twice. -/
theorem early_receipt_dropped :
    sampleOutcome sampleDurable
        [.note (sampleReceipt 98 0), .waitForDurability, .wake true] =
      .returned { requested := 2, achieved := 1, replicas := [[110]], timedOut := true } ∧
    sampleOutcome { sampleDurable with durability := 3 }
        [.waitForDurability, .note (sampleReceipt 98 0), .note (sampleReceipt 98 1), .wake false] =
      .returned { requested := 3, achieved := 3, replicas := [[110], [98], [98]] } := by
  decide +kernel

/-- Three receipts in time. -/
def sampleTimelyRun : List WriteEvent :=
  [.waitForDurability, .note (sampleReceipt 98 0), .note (sampleReceipt 98 0),
    .note (sampleReceipt 99 0), .wake false]

/-- Two receipts of one node and one of another are two replicas. -/
theorem durability_accounted_sample :
    Accounts [sampleReceipt 98 0, sampleReceipt 98 0, sampleReceipt 99 0]
      { requested := 3, achieved := 3, replicas := [[110], [98], [99]] } := by
  have htimely : Guarded DurableWrite.step (Timely (List.replicate 32 0))
      { sampleDurable with durability := 3 } sampleTimelyRun :=
    ⟨trivial, fun _ => ⟨by decide +kernel, rfl, by decide, by decide⟩,
      fun _ => ⟨by decide +kernel, rfl, by decide, by decide⟩,
      fun _ => ⟨by decide +kernel, rfl, by decide, by decide⟩, trivial, trivial⟩
  have hreturned : (final DurableWrite.step { sampleDurable with durability := 3 }
      sampleTimelyRun).phase =
        .returned { requested := 3, achieved := 3, replicas := [[110], [98], [99]] } := by
    decide +kernel
  exact durability_accounted rfl ⟨by decide, rfl⟩ rfl htimely hreturned

end DeSentry
