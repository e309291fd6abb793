import Mathlib

/-!
# Byte strings, little-endian integers and readers

The vocabulary every binary format is stated in: byte strings with the lexicographic order
of unsigned bytes, fixed-width little-endian integers, and readers that consume a prefix of a
byte string or fail.

A *reader* is a state transformer over the bytes still to be read.  The one relation the
round-trip proofs run on is `Reads get bytes a`: whatever follows, `get` consumes exactly
`bytes` and returns `a`.  It composes along `>>=` (`Reads.bind`) and along counted repetition
(`Reads.many`), so that a codec is verified by walking its writer and its reader in parallel,
and two byte strings read by the same reader are equal together with their values
(`Reads.cancel`).
-/

/-- A byte string, ordered lexicographically on unsigned bytes. -/
abbrev Bytes := List UInt8

namespace ByteCodec

open List

/-- Named, so that membership tests of byte strings share one proof. -/
instance lawfulBEqBytes : LawfulBEq Bytes := inferInstance

instance linearOrderUInt8 : LinearOrder UInt8 where
  le_refl := UInt8.le_refl
  le_trans := fun _ _ _ => UInt8.le_trans
  lt_iff_le_not_ge := fun a b => by
    rw [UInt8.lt_iff_toNat_lt, UInt8.le_iff_toNat_le, UInt8.le_iff_toNat_le]
    omega
  le_antisymm := fun _ _ => UInt8.le_antisymm
  le_total := UInt8.le_total
  toDecidableLE := inferInstance
  toDecidableLT := inferInstance
  toDecidableEq := inferInstance

/-! ## Little-endian integers -/

/-- The `w` low-order base-256 digits of `n`, least significant first. -/
def leBytes : ℕ → ℕ → Bytes
  | 0, _ => []
  | w + 1, n => UInt8.ofNat n :: leBytes w (n / 256)

/-- The number a little-endian byte string denotes. -/
def leValue : Bytes → ℕ
  | [] => 0
  | b :: bs => b.toNat + 256 * leValue bs

@[simp] lemma length_leBytes (w n : ℕ) : (leBytes w n).length = w := by
  induction w generalizing n with
  | zero => rfl
  | succ w ih => simp [leBytes, ih]

/-- Reading back `w` digits recovers the number modulo `256 ^ w`. -/
lemma leValue_leBytes (w n : ℕ) : leValue (leBytes w n) = n % 256 ^ w := by
  induction w generalizing n with
  | zero => simp [leBytes, leValue, Nat.mod_one]
  | succ w ih =>
    have hb : (UInt8.ofNat n).toNat = n % 256 := UInt8.toNat_ofNat'
    rw [leBytes, leValue, ih, hb, pow_succ', Nat.mod_mul]

lemma leValue_lt (bs : Bytes) : leValue bs < 256 ^ bs.length := by
  induction bs with
  | nil => simp [leValue]
  | cons b bs ih =>
    have hb : b.toNat < 256 := b.toNat_lt
    rw [leValue, length_cons]
    omega

/-- The digits of a number, cut in two. -/
lemma leBytes_add (v w n : ℕ) : leBytes (v + w) n = leBytes v n ++ leBytes w (n / 256 ^ v) := by
  induction v generalizing n with
  | zero => simp [leBytes]
  | succ v ih =>
    rw [Nat.succ_add, leBytes, leBytes, ih, cons_append, Nat.div_div_eq_div_mul, ← pow_succ']

lemma leValue_append (as bs : Bytes) :
    leValue (as ++ bs) = leValue as + 256 ^ as.length * leValue bs := by
  induction as with
  | nil => simp [leValue]
  | cons a as ih =>
    rw [cons_append, leValue, leValue, ih, length_cons]
    ring

variable {n : ℕ}

lemma leValue_lt_of_length {bs : Bytes} (h : bs.length = n) : leValue bs < 256 ^ n := by
  rw [← h]
  exact leValue_lt bs

/-- Every byte string is the digits of its value. -/
lemma leBytes_leValue (bs : Bytes) : leBytes bs.length (leValue bs) = bs := by
  induction bs with
  | nil => rfl
  | cons b bs ih =>
    have hlt : b.toNat < 256 := b.toNat_lt
    have hdiv : (b.toNat + 256 * leValue bs) / 256 = leValue bs := by omega
    have hmod : UInt8.ofNat (b.toNat + 256 * leValue bs) = b := by
      rw [← UInt8.toNat_inj, UInt8.toNat_ofNat']
      omega
    rw [length_cons, leValue, leBytes, hdiv, hmod, ih]

/-! ## Decimal numerals -/

/-- The decimal numeral of a number, in ASCII. -/
def decimal (n : ℕ) : Bytes := (Nat.toDigits 10 n).map fun c => UInt8.ofNat c.toNat

lemma toNat_of_isDigit {c : Char} (h : c.isDigit) : 48 ≤ c.toNat ∧ c.toNat ≤ 57 := by
  simp only [Char.isDigit, Bool.and_eq_true, decide_eq_true_eq] at h
  exact ⟨UInt32.le_iff_toNat_le.mp h.1, UInt32.le_iff_toNat_le.mp h.2⟩

lemma isDigit_of_mem_decimal {b : UInt8} (h : b ∈ decimal n) :
    48 ≤ b.toNat ∧ b.toNat ≤ 57 := by
  obtain ⟨c, hc, rfl⟩ := mem_map.mp h
  have hd := toNat_of_isDigit (Nat.isDigit_of_mem_toDigits (by decide) le_rfl hc)
  have hb : (UInt8.ofNat c.toNat).toNat = c.toNat % 256 := UInt8.toNat_ofNat'
  omega

lemma decimal_injective : Function.Injective decimal := by
  intro m n h
  -- The digits come back from their ASCII codes.
  have hback : ∀ k, (decimal k).map (fun b => Char.ofNat b.toNat) = Nat.toDigits 10 k := by
    intro k
    rw [decimal, map_map]
    conv_rhs => rw [← map_id (Nat.toDigits 10 k)]
    refine map_congr_left fun c hc => ?_
    have hd := toNat_of_isDigit (Nat.isDigit_of_mem_toDigits (by decide) le_rfl hc)
    have hb : (UInt8.ofNat c.toNat).toNat = c.toNat % 256 := UInt8.toNat_ofNat'
    rw [Function.comp_apply, hb, Nat.mod_eq_of_lt (by omega), Char.ofNat_toNat, id]
  have hdigits : Nat.toDigits 10 m = Nat.toDigits 10 n := by rw [← hback, ← hback, h]
  have hval := congrArg (fun ds => Nat.ofDigitChars 10 ds 0) hdigits
  simpa using hval

variable {xs ys : Bytes} {sep : UInt8}

/-- Two strings split at the last occurrence of a separator. -/
lemma append_sep_inj {zs ws : Bytes} (hz : sep ∉ zs) (hw : sep ∉ ws)
    (h : xs ++ sep :: zs = ys ++ sep :: ws) : xs = ys ∧ zs = ws := by
  rcases append_eq_append_iff.mp h with ⟨d, rfl, hd⟩ | ⟨d, rfl, hd⟩ <;> cases d with
  | nil => simp_all
  | cons b d => simp_all

/-- A numeral behind a separator that is no digit can be read back. -/
lemma append_decimal_inj {m : ℕ} (hsep : sep.toNat < 48 ∨ 57 < sep.toNat)
    (h : xs ++ sep :: decimal m = ys ++ sep :: decimal n) : xs = ys ∧ m = n := by
  have hnot : ∀ k, sep ∉ decimal k := fun k hk => by
    have := isDigit_of_mem_decimal hk
    omega
  obtain ⟨hxs, hmn⟩ := append_sep_inj (hnot m) (hnot n) h
  exact ⟨hxs, decimal_injective hmn⟩

/-! ## Readers -/

/-- A reader over the remaining input, failing with an error of type `ε`. -/
abbrev Reader (ε : Type) := StateT Bytes (Except ε)

variable {ε α β : Type}

/-- Consume exactly `n` bytes, or fail with `eof` when fewer remain. -/
def take (eof : ε) (n : ℕ) : Reader ε Bytes := fun s =>
  if s.length < n then .error eof else .ok (s.take n, s.drop n)

/-- Run `get` exactly `n` times. -/
def many (get : Reader ε α) : ℕ → Reader ε (List α)
  | 0 => pure []
  | n + 1 => do
    let a ← get
    let as ← many get n
    pure (a :: as)

/-- Whatever follows, `get` consumes exactly `bytes` and returns `a`. -/
def Reads (get : Reader ε α) (bytes : Bytes) (a : α) : Prop :=
  ∀ rest, get.run (bytes ++ rest) = .ok (a, rest)

variable {get get' : Reader ε α} {f : α → Reader ε β} {P : α → Prop} {Q : β → Prop} {a : α} {b : β}

lemma Reads.pure (a : α) : Reads (pure a : Reader ε α) [] a := fun _ => rfl

lemma Reads.bind (hx : Reads get xs a) (hy : Reads (f a) ys b) :
    Reads (get >>= f) (xs ++ ys) b := by
  intro rest
  rw [append_assoc, StateT.run_bind, hx]
  exact hy rest

/-- A sequence returns if both of its parts do. -/
lemma run_bind_eq_ok {s s' : Bytes} :
    (get >>= f).run s = .ok (b, s') ↔
      ∃ a t, get.run s = .ok (a, t) ∧ (f a).run t = .ok (b, s') := by
  rw [StateT.run_bind]
  cases hx : get.run s with
  | error e => exact ⟨nofun, fun ⟨_, _, h, _⟩ => nomatch h⟩
  | ok x =>
    refine ⟨fun h => ⟨x.1, x.2, rfl, h⟩, ?_⟩
    rintro ⟨a, t, h, hf⟩
    obtain rfl := Except.ok.inj h
    exact hf

/-- Reading a prefix leaves the continuation with the rest. -/
lemma Reads.run_bind (hx : Reads get xs a) (rest : Bytes) :
    (get >>= f).run (xs ++ rest) = (f a).run rest := by
  rw [StateT.run_bind, hx]
  rfl

/-- The last reader of a sequence sees no further bytes of its own. -/
lemma Reads.map {f : α → β} (hx : Reads get xs a) :
    Reads (get >>= fun a => Pure.pure (f a)) xs (f a) := by
  have h : Reads (get >>= fun a => Pure.pure (f a)) (xs ++ []) (f a) :=
    Reads.bind hx (Reads.pure (f a))
  rwa [append_nil] at h

/-- A reader that ends in a computation on what it has read. -/
lemma Reads.lift {f : α → Except ε β} (hx : Reads get xs a) (hf : f a = .ok b) :
    Reads (get >>= fun a => StateT.lift (f a)) xs b := by
  have hpure : Reads (StateT.lift (f a) : Reader ε β) [] b := by
    intro rest
    rw [hf]
    rfl
  have h := Reads.bind (f := fun a => StateT.lift (f a)) hx hpure
  rwa [append_nil] at h

lemma run_take_eq_ok {eof : ε} {s s' : Bytes} : (take eof n).run s = .ok (xs, s') →
    n ≤ s.length ∧ s.take n = xs ∧ s.drop n = s' := by
  show (if _ then _ else _) = _ → _
  split_ifs with h
  · nofun
  · simpa using fun htake hdrop => ⟨Nat.le_of_not_lt h, htake, hdrop⟩

lemma Reads.take (eof : ε) (bs : Bytes) : Reads (take eof bs.length) bs bs := by
  intro rest
  have h : ¬ (bs ++ rest).length < bs.length := by simp
  show (if _ then _ else _) = _
  rw [if_neg h, take_left, drop_left]

/-- Counted repetition reads the concatenation of what each run reads. -/
lemma Reads.many {chunks : List Bytes} {as : List α} (h : List.Forall₂ (Reads get) chunks as) :
    Reads (many get as.length) chunks.flatten as := by
  induction h with
  | nil => exact Reads.pure []
  | cons hx _ ih => exact hx.bind ih.map

/-- One reader cannot read two different values off byte strings that agree: the prefix
property every injectivity proof of a format goes through. -/
lemma Reads.cancel {r s : Bytes} {b : α} (hx : Reads get xs a) (hy : Reads get ys b)
    (h : xs ++ r = ys ++ s) : a = b ∧ r = s := by
  have hxr := hx r
  rw [h, hy s] at hxr
  simp only [Except.ok.injEq, Prod.mk.injEq] at hxr
  exact ⟨hxr.1.symm, hxr.2.symm⟩

/-- Running a reader on exactly the bytes it reads. -/
lemma Reads.run_eq (hx : Reads get xs a) : get.run xs = .ok (a, []) := by
  have h := hx []
  rwa [append_nil] at h

/-- Whatever it reads, `get` returns only values with the property. -/
def Yields (get : Reader ε α) (P : α → Prop) : Prop := ∀ s a s', get.run s = .ok (a, s') → P a

lemma Yields.pure (h : P a) : Yields (pure a : Reader ε α) P := by
  intro s b s' hrun
  obtain ⟨rfl, -⟩ := Prod.mk.inj (Except.ok.inj hrun)
  exact h

lemma Yields.bind (hget : Yields get P) (hf : ∀ a, P a → Yields (f a) Q) :
    Yields (get >>= f) Q := by
  intro s b s' hrun
  obtain ⟨a, t, hx, hy⟩ := run_bind_eq_ok.mp hrun
  exact hf a (hget s a t hx) t b s' hy

/-- A value that nothing is said of. -/
lemma yields_skip (hf : ∀ a, Yields (f a) Q) : Yields (get >>= f) Q :=
  Yields.bind (fun _ _ _ _ => trivial) fun a _ => hf a

lemma yields_lift {x : Except ε α} (h : ∀ a, x = .ok a → P a) :
    Yields (StateT.lift x : Reader ε α) P := by
  intro s a s' hrun
  cases x with
  | error e => cases hrun
  | ok b =>
    obtain ⟨rfl, -⟩ := Prod.mk.inj (Except.ok.inj hrun)
    exact h b rfl

lemma Yields.many (h : Yields get P) (n : ℕ) :
    Yields (many get n) fun as => ∀ a ∈ as, P a := by
  induction n with
  | zero => exact Yields.pure (by simp)
  | succ n ih =>
    exact h.bind fun a ha => ih.bind fun as has =>
      Yields.pure (forall_mem_cons.mpr ⟨ha, has⟩)

/-- Counted repetition returns as many values as it is asked for. -/
lemma yields_many_length (get : Reader ε α) (n : ℕ) :
    Yields (many get n) (·.length = n) := by
  induction n with
  | zero => exact Yields.pure rfl
  | succ n ih =>
    exact yields_skip fun a => ih.bind fun as has =>
      Yields.pure (by rw [length_cons, has])

/-- Like `Yields`, for inputs of at most `n` bytes. -/
def YieldsWithin (n : ℕ) (get : Reader ε α) (P : α → Prop) : Prop :=
  ∀ s a s', s.length ≤ n → get.run s = .ok (a, s') → P a ∧ s'.length ≤ n

lemma YieldsWithin.pure (h : P a) : YieldsWithin n (pure a : Reader ε α) P := by
  intro s b s' hs hrun
  obtain ⟨rfl, rfl⟩ := Prod.mk.inj (Except.ok.inj hrun)
  exact ⟨h, hs⟩

lemma YieldsWithin.bind (hget : YieldsWithin n get P) (hf : ∀ a, P a → YieldsWithin n (f a) Q) :
    YieldsWithin n (get >>= f) Q := by
  intro s b s' hs hrun
  obtain ⟨a, t, hx, hy⟩ := run_bind_eq_ok.mp hrun
  obtain ⟨hP, hle⟩ := hget s a t hs hx
  exact hf a hP t b s' hle hy

/-- What is taken is no longer than the input. -/
lemma yieldsWithin_take (eof : ε) (n k : ℕ) : YieldsWithin n (take eof k) (·.length ≤ n) := by
  intro s a s' hs hrun
  obtain ⟨hlen, rfl, rfl⟩ := run_take_eq_ok hrun
  have htake := length_take_le k s
  have hdrop : (s.drop k).length = s.length - k := length_drop
  exact ⟨htake.trans (by omega), by omega⟩

lemma yields_take (eof : ε) (n : ℕ) : Yields (take eof n) (·.length = n) := by
  intro s a s' hrun
  obtain ⟨hlen, rfl, -⟩ := run_take_eq_ok hrun
  rw [length_take, Nat.min_eq_left hlen]

/-- When `pre` has been read already, `get` returns only values whose bytes `put` are all that has
been read by then: the converse of `Reads`. -/
def Consumes (pre : Bytes) (get : Reader ε α) (put : α → Bytes) : Prop :=
  ∀ s a s', get.run s = .ok (a, s') → pre ++ s = put a ++ s'

variable {pre : Bytes}

lemma Consumes.pure {put : α → Bytes} (h : put a = pre) :
    Consumes pre (pure a : Reader ε α) put := by
  intro s b s' hrun
  obtain ⟨rfl, rfl⟩ := Prod.mk.inj (Except.ok.inj hrun)
  rw [h]

lemma Consumes.bind {put : α → Bytes} {put' : β → Bytes} (hget : Consumes [] get put)
    (hf : ∀ a, Consumes (pre ++ put a) (f a) put') :
    Consumes pre (get >>= f) put' := by
  intro s b s' hrun
  obtain ⟨a, t, hx, hy⟩ := run_bind_eq_ok.mp hrun
  have hs : s = put a ++ t := hget s a t hx
  rw [hs, ← append_assoc]
  exact hf a t b s' hy

lemma consumes_take (eof : ε) (n : ℕ) : Consumes [] (take eof n) id := by
  intro s a s' hrun
  obtain ⟨-, rfl, rfl⟩ := run_take_eq_ok hrun
  exact (take_append_drop n s).symm

/-- `get'` returns what `get` returns, wherever that returns something. -/
def Widens (get get' : Reader ε α) : Prop := ∀ s r, get.run s = .ok r → get'.run s = .ok r

lemma Widens.refl (get : Reader ε α) : Widens get get := fun _ _ hrun => hrun

lemma Widens.bind {f f' : α → Reader ε β} (hget : Widens get get')
    (hf : ∀ a, Widens (f a) (f' a)) : Widens (get >>= f) (get' >>= f') := by
  intro s r hrun
  obtain ⟨a, t, hx, hy⟩ := run_bind_eq_ok.mp hrun
  exact run_bind_eq_ok.mpr ⟨a, t, hget s _ hx, hf a t r hy⟩

lemma widens_lift {x x' : Except ε α} (h : ∀ a, x = .ok a → x' = .ok a) :
    Widens (StateT.lift x : Reader ε α) (StateT.lift x') := by
  intro s r hrun
  cases x with
  | error e => cases hrun
  | ok a =>
    rw [h a rfl]
    exact hrun

lemma Widens.many (h : Widens get get') (n : ℕ) :
    Widens (many get n) (many get' n) := by
  induction n with
  | zero => exact Widens.refl _
  | succ n ih => exact h.bind fun a => ih.bind fun as => Widens.refl _

end ByteCodec
