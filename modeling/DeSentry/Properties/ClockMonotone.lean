import DeSentry.Framework.Runs
import DeSentry.Construction.Crdt.Hlc

/-!
# Monotonicity of the hybrid logical clock

`HybridLogicalClock` promises a stamp greater than every stamp it has produced or observed.
The promise is about runs: a call sequence mixes `Now`, `Observe` and `Restore`, each at an
arbitrary wall-clock reading, and the stamps that bind a later `Now` are the ones an earlier
`Now` returned and the remote ones an earlier `Observe` accepted.

The state bounds the past lexicographically on (physical, logical), and only `Now` can break
the bound: its increment of a saturated logical counter wraps to zero.  `Observe` refuses to
do that; `Now` does not check (`now_wraps_backwards`).  Away from that one situation
(`NoWrap`) every run is monotone (`issued_stamps_increase`).
-/

namespace DeSentry

open Runs

/-! ## Calls and answers -/

/-- A call on the clock, with the wall-clock reading it happens at. -/
inductive ClockCall where
  | now (wall : UInt64)
  | observe (wall : UInt64) (remote : HLCTimestamp)
  | restore (physicalMs : UInt64) (logical : UInt32)
  deriving DecidableEq, Repr

/-- What a call returned. -/
inductive ClockAnswer where
  | issued (ts : HLCTimestamp)
  | observed (remote : HLCTimestamp) (accepted : Bool)
  | restored
  deriving DecidableEq, Repr

namespace ClockAnswer

/-- The stamp an answer obliges later stamps to exceed. -/
def bindingStamp : ClockAnswer → Option HLCTimestamp
  | issued ts => some ts
  | observed remote true => some remote
  | observed _ false => none
  | restored => none

/-- The later answer respects the earlier one: a stamp it issues exceeds the earlier binding
stamp. -/
def Precedes (earlier : ClockAnswer) : ClockAnswer → Prop
  | issued ts => ∀ s ∈ earlier.bindingStamp, s < ts
  | observed _ _ => True
  | restored => True

instance (earlier later : ClockAnswer) : Decidable (earlier.Precedes later) := by
  cases later <;> unfold Precedes <;> infer_instance

end ClockAnswer

/-- One call on the clock. -/
def clockStep (c : HybridLogicalClock) : ClockCall → HybridLogicalClock × ClockAnswer
  | .now wall => (c.now wall).map id .issued
  | .observe wall remote => (c.observe wall remote).map id (.observed remote)
  | .restore physicalMs logical => (c.restore physicalMs logical, .restored)

/-! ## What one step does to the clock's position -/

namespace HybridLogicalClock

/-- The pair the clock advances lexicographically. -/
def position (c : HybridLogicalClock) : ℕ ×ₗ ℕ := toLex (c.lastPhysical.toNat, c.lastLogical.toNat)

/-- `Now` may not increment a saturated logical counter. -/
def NoWrap (c : HybridLogicalClock) : ClockCall → Prop
  | .now wall => ¬ (wall ≤ c.lastPhysical ∧ c.lastLogical = uint32Max)
  | .observe _ _ => True
  | .restore _ _ => True

end HybridLogicalClock

/-- The pair of a stamp the clock's position is compared with. -/
def HLCTimestamp.position (t : HLCTimestamp) : ℕ ×ₗ ℕ := toLex (t.physicalMs.toNat, t.logical.toNat)

lemma HLCTimestamp.lt_of_position_lt {s t : HLCTimestamp} (h : s.position < t.position) :
    s < t := by
  rw [HLCTimestamp.position, HLCTimestamp.position, Prod.Lex.toLex_lt_toLex] at h
  rw [HLCTimestamp.lt_iff_key, HLCTimestamp.key, HLCTimestamp.key, Prod.Lex.toLex_lt_toLex,
    Prod.Lex.toLex_lt_toLex]
  rcases h with h | ⟨hp, hl⟩
  · exact Or.inl h
  · exact Or.inr ⟨hp, Or.inl hl⟩

namespace HybridLogicalClock

variable (c : HybridLogicalClock)

lemma toNat_succ_of_ne_max {l : UInt32} (h : l ≠ uint32Max) : (l + 1).toNat = l.toNat + 1 := by
  have hl : l.toNat ≠ uint32Max.toNat := fun he => h (UInt32.toNat_inj.mp he)
  have hlt := l.toNat_lt
  have hmax : uint32Max.toNat = 2 ^ 32 - 1 := by decide
  rw [UInt32.toNat_add, show (1 : UInt32).toNat = 1 from rfl]
  exact Nat.mod_eq_of_lt (by omega)

/-- A stamp issued without wrapping is the clock's new position. -/
lemma position_now (wall : UInt64) : (c.now wall).2.position = (c.now wall).1.position := by
  rfl

variable {c}

lemma lt_position_now {wall : UInt64} (h : c.NoWrap (.now wall)) :
    c.position < (c.now wall).1.position := by
  rw [position, position, Prod.Lex.toLex_lt_toLex]
  by_cases hw : wall > c.lastPhysical
  · left
    simpa [now, hw] using UInt64.lt_iff_toNat_lt.mp hw
  · right
    have hmax : c.lastLogical ≠ uint32Max := fun he => h ⟨UInt64.not_lt.mp hw, he⟩
    simp only [now, hw, if_false, toNat_succ_of_ne_max hmax]
    exact ⟨trivial, Nat.lt_succ_self _⟩

/-- Where the clock moves at the same physical time, its logical counter moves up to at least
the given one. -/
lemma position_le_of_logical {p l q m : ℕ} (hp : p ≤ q) (hl : p = q → l ≤ m) :
    (toLex (p, l) : ℕ ×ₗ ℕ) ≤ toLex (q, m) := by
  rw [Prod.Lex.toLex_le_toLex]
  rcases lt_or_eq_of_le hp with h | h
  · exact Or.inl h
  · exact Or.inr ⟨h, hl h⟩

lemma toNat_max_uint64 (a b : UInt64) : (max a b).toNat = max a.toNat b.toNat := by
  change (if a ≤ b then b else a).toNat = _
  split_ifs with h
  · rw [max_eq_right (UInt64.le_iff_toNat_le.mp h)]
  · rw [max_eq_left (UInt64.lt_iff_toNat_lt.mp (UInt64.not_le.mp h)).le]

/-- Below saturation the successor of the larger counter is the larger of the successors. -/
lemma toNat_max_succ {a b : UInt32} (ha : a ≠ uint32Max) (hb : b ≠ uint32Max) :
    (max a b + 1).toNat = max (a.toNat + 1) (b.toNat + 1) := by
  change ((if a ≤ b then b else a) + 1).toNat = _
  split_ifs with h
  · have := UInt32.le_iff_toNat_le.mp h
    rw [toNat_succ_of_ne_max hb]
    omega
  · have := UInt32.lt_iff_toNat_lt.mp (UInt32.not_le.mp h)
    rw [toNat_succ_of_ne_max ha]
    omega

variable (c)

/-- The logical counter of a clock that folds a remote stamp in, given the new physical time. -/
def foldedLogical (remote : HLCTimestamp) (maxPhysical : UInt64) : UInt32 :=
  if maxPhysical = c.lastPhysical ∧ maxPhysical = remote.physicalMs then
    max c.lastLogical remote.logical + 1
  else if maxPhysical = c.lastPhysical then c.lastLogical + 1
  else if maxPhysical = remote.physicalMs then remote.logical + 1
  else 0

/-- The three outcomes of `Observe`: two refusals, or the stamp is folded in. -/
lemma observe_cases (wall : UInt64) (remote : HLCTimestamp) :
    c.observe wall remote = (c, false) ∨
      c.lastLogical ≠ uint32Max ∧ remote.logical ≠ uint32Max ∧
      ∃ M : UInt64, M.toNat =
          max (max wall.toNat c.lastPhysical.toNat) remote.physicalMs.toNat ∧
        c.observe wall remote = (⟨c.nodeId, M, c.foldedLogical remote M⟩, true) := by
  by_cases hskew : remote.physicalMs > wall + kMaxFutureSkewMs
  · exact Or.inl (if_pos hskew)
  by_cases hsat : c.lastLogical = uint32Max ∨ remote.logical = uint32Max
  · exact Or.inl (by rw [observe, if_neg hskew, if_pos hsat])
  obtain ⟨hc, hr⟩ := not_or.mp hsat
  refine Or.inr ⟨hc, hr, max (max wall c.lastPhysical) remote.physicalMs, ?_, ?_⟩
  · rw [toNat_max_uint64, toNat_max_uint64]
  · rw [observe, if_neg hskew, if_neg hsat]
    rfl

variable {c} {remote : HLCTimestamp}

/-- At the clock's own physical time, the folded counter passes the clock's. -/
lemma le_foldedLogical_self (hc : c.lastLogical ≠ uint32Max) (hr : remote.logical ≠ uint32Max) :
    c.lastLogical.toNat ≤ (c.foldedLogical remote c.lastPhysical).toNat := by
  rw [foldedLogical]
  split_ifs with h1 h2
  · rw [toNat_max_succ hc hr]
    omega
  · rw [toNat_succ_of_ne_max hc]
    omega
  all_goals exact absurd rfl h2

/-- At the remote physical time, the folded counter passes the remote one. -/
lemma le_foldedLogical_remote (hc : c.lastLogical ≠ uint32Max) (hr : remote.logical ≠ uint32Max) :
    remote.logical.toNat ≤ (c.foldedLogical remote remote.physicalMs).toNat := by
  rw [foldedLogical]
  split_ifs with h1 h2 h3
  · rw [toNat_max_succ hc hr]
    omega
  · exact absurd ⟨h2, rfl⟩ h1
  · rw [toNat_succ_of_ne_max hr]
    omega
  · exact absurd rfl h3

variable (c)

/-- `Observe` moves the clock forward, and past the remote stamp when it accepts it. -/
lemma position_observe (wall : UInt64) (remote : HLCTimestamp) :
    c.position ≤ (c.observe wall remote).1.position ∧
      ((c.observe wall remote).2 = true → remote.position ≤ (c.observe wall remote).1.position) := by
  rcases observe_cases c wall remote with h | ⟨hc, hr, M, hM, h⟩
  · rw [h]
    exact ⟨le_rfl, fun hf => absurd hf Bool.false_ne_true⟩
  · have hcM : c.lastPhysical.toNat ≤ M.toNat := by omega
    have hrM : remote.physicalMs.toNat ≤ M.toNat := by omega
    rw [h]
    refine ⟨position_le_of_logical hcM fun he => ?_,
      fun _ => position_le_of_logical hrM fun he => ?_⟩
    · obtain rfl := UInt64.toNat_inj.mp he
      exact le_foldedLogical_self hc hr
    · obtain rfl := UInt64.toNat_inj.mp he
      exact le_foldedLogical_remote hc hr

lemma position_restore (physicalMs : UInt64) (logical : UInt32) :
    c.position ≤ (c.restore physicalMs logical).position := by
  rw [restore]
  split_ifs with h
  · rcases h with h | ⟨rfl, h⟩
    · exact position_le_of_logical (UInt64.lt_iff_toNat_lt.mp h).le fun he =>
        absurd he (UInt64.lt_iff_toNat_lt.mp h).ne
    · exact position_le_of_logical le_rfl fun _ => (UInt32.lt_iff_toNat_lt.mp h).le
  · exact le_rfl

/-- The clock has moved past an answer's binding stamp. -/
def Above (a : ClockAnswer) : Prop := ∀ s ∈ a.bindingStamp, s.position ≤ c.position

variable {c} {call : ClockCall}

lemma position_le_step (h : c.NoWrap call) :
    c.position ≤ (clockStep c call).1.position := by
  cases call with
  | now wall =>
    rw [clockStep, Prod.map_fst, id_eq]
    exact (lt_position_now h).le
  | observe wall remote =>
    rw [clockStep, Prod.map_fst, id_eq]
    exact (position_observe c wall remote).1
  | restore physicalMs logical => exact position_restore c physicalMs logical

lemma above_step (c : HybridLogicalClock) (call : ClockCall) :
    (clockStep c call).1.Above (clockStep c call).2 := by
  intro s hs
  cases call with
  | now wall =>
    rw [clockStep, Prod.map_snd] at hs
    obtain rfl : (c.now wall).2 = s := Option.some_injective _ hs
    rw [clockStep, Prod.map_fst, id_eq]
    exact (position_now c wall).le
  | observe wall remote =>
    rw [clockStep, Prod.map_snd] at hs
    rw [clockStep, Prod.map_fst, id_eq]
    cases hacc : (c.observe wall remote).2 with
    | true =>
      rw [hacc] at hs
      obtain rfl : remote = s := Option.some_injective _ hs
      exact (position_observe c wall remote).2 hacc
    | false =>
      rw [hacc] at hs
      exact absurd hs (Option.not_mem_none s)
  | restore physicalMs logical => exact absurd hs (Option.not_mem_none s)

lemma precedes_step (h : c.NoWrap call) {a : ClockAnswer} (ha : c.Above a) :
    a.Precedes (clockStep c call).2 := by
  cases call with
  | now wall =>
    rw [clockStep, Prod.map_snd]
    intro s hs
    apply HLCTimestamp.lt_of_position_lt
    rw [position_now]
    exact (ha s hs).trans_lt (lt_position_now h)
  | observe wall remote =>
    rw [clockStep, Prod.map_snd]
    exact trivial
  | restore physicalMs logical => exact trivial

end HybridLogicalClock

/-! ## Runs -/

/-- **Clock monotonicity.**  In every run of `Now`, `Observe` and `Restore` calls that never
increments a saturated logical counter, each stamp `Now` returns exceeds every stamp an earlier
`Now` returned and every remote stamp an earlier `Observe` accepted, whatever the wall clock
reads. -/
theorem issued_stamps_increase (c : HybridLogicalClock) (calls : List ClockCall)
    (h : Guarded clockStep HybridLogicalClock.NoWrap c calls) :
    (outputs clockStep c calls).Pairwise ClockAnswer.Precedes :=
  pairwise_outputs HybridLogicalClock.Above
    (fun _ _ _ hok ha s hs => (ha s hs).trans (HybridLogicalClock.position_le_step hok))
    (fun c call _ => HybridLogicalClock.above_step c call)
    (fun _ _ _ hok ha => HybridLogicalClock.precedes_step hok ha) h

/-- The calls of a node whose peer's stamp sits one below the saturated counter. -/
def saturatingCalls : List ClockCall :=
  [.observe 1000 ⟨1000, 4294967294, [98]⟩, .now 1000]

/-- An accepted remote stamp can saturate the counter; the next `Now` in the same millisecond
wraps it and returns a stamp below the remote one. -/
theorem now_wraps_backwards :
    ¬ (outputs clockStep ⟨[97], 0, 0⟩ saturatingCalls).Pairwise ClockAnswer.Precedes := by
  decide

/-- A run in which the wall clock steps back and a remote stamp runs ahead, and the clock
keeps increasing. -/
theorem issued_stamps_increase_stepBack :
    Guarded clockStep HybridLogicalClock.NoWrap ⟨[97], 0, 0⟩
        [.now 1000, .observe 900 ⟨5000, 7, [98]⟩, .now 800, .restore 5000 2, .now 5000] ∧
      (outputs clockStep ⟨[97], 0, 0⟩
        [.now 1000, .observe 900 ⟨5000, 7, [98]⟩, .now 800, .restore 5000 2, .now 5000]).Pairwise
          ClockAnswer.Precedes := by
  have h : Guarded clockStep HybridLogicalClock.NoWrap ⟨[97], 0, 0⟩
      [.now 1000, .observe 900 ⟨5000, 7, [98]⟩, .now 800, .restore 5000 2, .now 5000] := by
    simp only [Guarded, HybridLogicalClock.NoWrap]
    decide
  exact ⟨h, issued_stamps_increase _ _ h⟩

end DeSentry
