import Mathlib

/-!
# Symbolic cryptography

Messages are terms over data `δ`, key pairs `α` and exponents `σ`.  A Diffie-Hellman secret is an
unordered pair of exponents.  `Derives` is what an attacker makes of the terms it has seen: it takes
tuples and signatures apart, decrypts with keys it has, and applies every operation to what it has.

A secret is kept if it is outside of a set that is closed under these operations and has everything
that was sent.  `Publishable` is such a set, for a protocol of which one can say what its honest
parties have signed and with which keys they have sealed: `Derives.publishable` is the rule.
-/

namespace DolevYao

/-- Messages. -/
inductive Term (δ α σ : Type) where
  | atom (d : δ)
  | pair (a b : Term δ α σ)
  | hash (t : Term δ α σ)
  | pubKey (a : α)
  | privKey (a : α)
  | exponent (x : σ)
  /-- The public part of an exponent. -/
  | power (x : σ)
  /-- What two exponents share. -/
  | shared (xy : Sym2 σ)
  | sign (a : α) (m : Term δ α σ)
  | kdf (secret salt : Term δ α σ) (label : δ)
  | mac (key m : Term δ α σ)
  | enc (key : Term δ α σ) (nonce : ℕ) (m : Term δ α σ)
  deriving DecidableEq

variable {δ α σ : Type} {corrupt : α → Prop} {own : σ → Prop}

/-- What an attacker derives from the terms it has seen, with the private keys of the corrupt key
pairs and with exponents of its own. -/
inductive Derives (corrupt : α → Prop) (own : σ → Prop) (seen : List (Term δ α σ)) :
    Term δ α σ → Prop
  | seen {t : Term δ α σ} : t ∈ seen → Derives corrupt own seen t
  | atom (d : δ) : Derives corrupt own seen (.atom d)
  | pubKey (a : α) : Derives corrupt own seen (.pubKey a)
  | privKey {a : α} : corrupt a → Derives corrupt own seen (.privKey a)
  | exponent {x : σ} : own x → Derives corrupt own seen (.exponent x)
  | pair {a b : Term δ α σ} : Derives corrupt own seen a → Derives corrupt own seen b →
      Derives corrupt own seen (.pair a b)
  | fst {a b : Term δ α σ} : Derives corrupt own seen (.pair a b) → Derives corrupt own seen a
  | snd {a b : Term δ α σ} : Derives corrupt own seen (.pair a b) → Derives corrupt own seen b
  | hash {t : Term δ α σ} : Derives corrupt own seen t → Derives corrupt own seen (.hash t)
  | power {x : σ} : Derives corrupt own seen (.exponent x) → Derives corrupt own seen (.power x)
  | shared {x y : σ} : Derives corrupt own seen (.exponent x) →
      Derives corrupt own seen (.power y) → Derives corrupt own seen (.shared s(x, y))
  | sign {a : α} {m : Term δ α σ} : Derives corrupt own seen (.privKey a) →
      Derives corrupt own seen m → Derives corrupt own seen (.sign a m)
  | signed {a : α} {m : Term δ α σ} : Derives corrupt own seen (.sign a m) →
      Derives corrupt own seen m
  | kdf {k s : Term δ α σ} (label : δ) : Derives corrupt own seen k → Derives corrupt own seen s →
      Derives corrupt own seen (.kdf k s label)
  | mac {k m : Term δ α σ} : Derives corrupt own seen k → Derives corrupt own seen m →
      Derives corrupt own seen (.mac k m)
  | enc {k m : Term δ α σ} (n : ℕ) : Derives corrupt own seen k → Derives corrupt own seen m →
      Derives corrupt own seen (.enc k n m)
  | dec {k m : Term δ α σ} {n : ℕ} : Derives corrupt own seen (.enc k n m) →
      Derives corrupt own seen k → Derives corrupt own seen m

/-- What the honest parties of a protocol have done. -/
structure Deeds (δ α σ : Type) where
  Signed : α → Term δ α σ → Prop
  /-- The honest parties have sealed with this key. -/
  Seals : Term δ α σ → Prop

/-- The terms that the attacker may have: it signs for corrupt key pairs only, has a derived key only
if it has its secret, and seals with such keys only. -/
def Publishable (corrupt : α → Prop) (own : σ → Prop) (d : Deeds δ α σ) : Term δ α σ → Prop
  | .atom _ => True
  | .pair a b => Publishable corrupt own d a ∧ Publishable corrupt own d b
  | .hash _ => True
  | .pubKey _ => True
  | .privKey a => corrupt a
  | .exponent x => own x
  | .power _ => True
  | .shared xy => ∃ x ∈ xy, own x
  | .sign a m => (corrupt a ∨ d.Signed a m) ∧ Publishable corrupt own d m
  | .kdf secret _ _ => Publishable corrupt own d secret
  | .mac _ _ => True
  | .enc key _ m =>
    (Publishable corrupt own d key ∨ d.Seals key) ∧ Publishable corrupt own d m

variable {d d' : Deeds δ α σ} {t : Term δ α σ}

/-- **The rule for secrets**: if everything that was sent is publishable, then so is everything the
attacker derives. -/
theorem Derives.publishable {seen : List (Term δ α σ)}
    (hseen : ∀ t ∈ seen, Publishable corrupt own d t) (h : Derives corrupt own seen t) :
    Publishable corrupt own d t := by
  induction h with
  | seen hmem => exact hseen _ hmem
  | atom d => trivial
  | pubKey a => trivial
  | privKey hcorrupt => exact hcorrupt
  | exponent hown => exact hown
  | pair _ _ iha ihb => exact ⟨iha, ihb⟩
  | fst _ ih => exact ih.1
  | snd _ ih => exact ih.2
  | hash _ _ => trivial
  | power _ _ => trivial
  | shared _ _ ihx _ => exact ⟨_, Sym2.mem_mk_left _ _, ihx⟩
  | sign _ _ ihkey ihm => exact ⟨Or.inl ihkey, ihm⟩
  | signed _ ih => exact ih.2
  | kdf _ _ _ ihk _ => exact ihk
  | mac _ _ _ _ => trivial
  | enc _ _ _ ihk ihm => exact ⟨Or.inl ihk, ihm⟩
  | dec _ _ ih _ => exact ih.2

/-- More corrupt key pairs and more deeds make more terms publishable. -/
lemma Publishable.mono {corrupt' : α → Prop} (hcorrupt : ∀ a, corrupt a → corrupt' a)
    (hsigned : ∀ a m, d.Signed a m → d'.Signed a m) (hseals : ∀ k, d.Seals k → d'.Seals k)
    (h : Publishable corrupt own d t) : Publishable corrupt' own d' t := by
  induction t with
  | atom | hash | pubKey | power | mac => trivial
  | pair a b iha ihb => exact ⟨iha h.1, ihb h.2⟩
  | privKey a => exact hcorrupt a h
  | exponent | shared => exact h
  | sign a m ih => exact ⟨h.1.imp (hcorrupt a) (hsigned a m), ih h.2⟩
  | kdf secret salt label ih _ => exact ih h
  | enc key n m ihkey ihm => exact ⟨h.1.imp ihkey (hseals key), ihm h.2⟩

end DolevYao
