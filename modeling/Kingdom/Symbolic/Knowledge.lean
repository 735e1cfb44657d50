import Kingdom.Codec.JsonSymbols
import Kingdom.Symbolic.Terms

/-!
# What an attacker can derive

An attacker computes with what it has seen: it takes strings apart and puts them
together in any way, and applies every cryptographic function.

* `Attacker`, `Derives` — what is secret to an attacker, and the strings it can make.
* `MayKnow` — a bound on the symbols of these strings, given what the others
  encrypted.
* `mayKnow_of_derives` — nothing outside the bound is ever derived.
-/

namespace Kd

open Codec Kd.Symbol

/-! ## Derivations -/

/-- An attacker owns some of the private keys, and some texts are secret to it. -/
structure Attacker where
  owns : Set Nat
  secrets : Set Nat

/-- The attacker who knows every text. -/
def Attacker.knowing (A : Attacker) : Attacker := { A with secrets := ∅ }

/-- What an attacker who has seen some strings can make. -/
inductive Derives (A : Attacker) (seen : Set (List Symbol)) : List Symbol → Prop where
  | observe {s} (h : s ∈ seen) : Derives A seen s
  | bytes (s : List UInt8) : Derives A seen (ofBytes s)
  /-- Nonces and salts are no secrets. -/
  | random (n i : Nat) : Derives A seen [.random n i]
  | own {n} (h : n ∈ A.owns) (i : Nat) : Derives A seen [.privateKey n i]
  | text {n} (h : n ∉ A.secrets) : Derives A seen [.text n]
  /-- Public keys are public, whosever they are. -/
  | boxPublicKey (k : List Symbol) : Derives A seen (Crypto.boxPublicKey k)
  | signPublicKey (k : List Symbol) : Derives A seen (Crypto.signPublicKey k)
  | append {s t} (hs : Derives A seen s) (ht : Derives A seen t) : Derives A seen (s ++ t)
  /-- Symbols may be left out, repeated and put in another order. -/
  | rearrange {s t} (hs : Derives A seen s) (ht : t ⊆ s) : Derives A seen t
  | base64Encode {s} (hs : Derives A seen s) : Derives A seen (Crypto.base64Encode s)
  | base64Decode {s t} (ht : Derives A seen t) (h : Crypto.base64Decode t = some s) :
      Derives A seen s
  | scalarmult {k p s} (hk : Derives A seen k) (hp : Derives A seen p)
      (h : Crypto.scalarmult k p = some s) : Derives A seen s
  | signDetached {m k} (hm : Derives A seen m) (hk : Derives A seen k) :
      Derives A seen (Crypto.signDetached m k)
  | aeadEncrypt {m ad n k} (hm : Derives A seen m) (had : Derives A seen ad) (hn : Derives A seen n)
      (hk : Derives A seen k) : Derives A seen (Crypto.aeadEncrypt m ad n k)
  | aeadDecrypt {c ad n k m} (hc : Derives A seen c) (hk : Derives A seen k)
      (h : Crypto.aeadDecrypt c ad n k = some m) : Derives A seen m
  | pwhash {p s r} (ops mem : UInt64) (hp : Derives A seen p) (hs : Derives A seen s)
      (h : Crypto.pwhash p s ops mem = some r) : Derives A seen r
  | hkdf {x info salt r} (hx : Derives A seen x) (hinfo : Derives A seen info)
      (hsalt : Derives A seen salt) (h : Crypto.hkdf x info salt = some r) : Derives A seen r

/-- Who has seen more, owns more and has less kept from it can make more. -/
theorem Derives.mono {A A' : Attacker} {seen seen' : Set (List Symbol)} (howns : A.owns ⊆ A'.owns)
    (hsecrets : A'.secrets ⊆ A.secrets) (hseen : seen ⊆ seen') {s : List Symbol}
    (h : Derives A seen s) : Derives A' seen' s := by
  induction h with
  | observe h => exact .observe (hseen h)
  | bytes s => exact .bytes s
  | random n i => exact .random n i
  | own h i => exact .own (howns h) i
  | text h => exact .text fun hn => h (hsecrets hn)
  | boxPublicKey k => exact .boxPublicKey k
  | signPublicKey k => exact .signPublicKey k
  | append _ _ hs ht => exact .append hs ht
  | rearrange _ ht hs => exact .rearrange hs ht
  | base64Encode _ hs => exact .base64Encode hs
  | base64Decode _ h ht => exact .base64Decode ht h
  | scalarmult _ _ h hk hp => exact .scalarmult hk hp h
  | signDetached _ _ hm hk => exact .signDetached hm hk
  | aeadEncrypt _ _ _ _ hm had hn hk => exact .aeadEncrypt hm had hn hk
  | aeadDecrypt _ _ h hc hk => exact .aeadDecrypt hc hk h
  | pwhash ops mem _ _ h hp hs => exact .pwhash ops mem hp hs h
  | hkdf _ _ _ h hx hinfo hsalt => exact .hkdf hx hinfo hsalt h

theorem Derives.knowing {A : Attacker} {seen : Set (List Symbol)} {s : List Symbol}
    (h : Derives A seen s) : Derives A.knowing seen s := by
  have howns : A.owns ⊆ A.knowing.owns := subset_rfl
  have hsecrets : A.knowing.secrets ⊆ A.secrets := Set.empty_subset _
  exact h.mono howns hsecrets subset_rfl

/-- Each symbol of a string can be made, when the string can. -/
theorem Derives.all {A : Attacker} {seen : Set (List Symbol)} {s : List Symbol}
    (h : Derives A seen s) : All (fun a => Derives A seen [a]) s := fun _ ha =>
  .rearrange h (by simpa using ha)

/-- And a string can be made, when each of its symbols can. -/
theorem derives_of_all {A : Attacker} {seen : Set (List Symbol)} {s : List Symbol}
    (h : All (fun a => Derives A seen [a]) s) : Derives A seen s := by
  induction s with
  | nil => exact .bytes []
  | cons a s ih =>
      obtain ⟨ha, hs⟩ := all_cons.mp h
      exact .append ha (ih hs)

/-! ## A bound -/

/-- What the users other than the attacker encrypted: the message, the associated data, the
nonce and the key. -/
abbrev Encrypted := List Symbol → List Symbol → List Symbol → List Symbol → Prop

section Bound

variable (A : Attacker) (E : Encrypted)

mutual

/-- A symbol the attacker may know. -/
def MayKnow : Symbol → Prop
  | .byte _ => True
  | .random _ _ => True
  | .privateKey n _ => n ∈ A.owns
  | .text n => n ∉ A.secrets
  | .boxPublic _ _ => True
  -- a secret of two key pairs takes one of the private keys
  | .shared k l _ => MayKnowAll k ∨ MayKnowAll l
  | .product k _ _ => MayKnowAll k
  | .signPublic _ _ => True
  | .signature _ _ _ => True
  -- a ciphertext is the attacker's own or somebody else's, and who has the key has the text
  | .sealed m ad n k _ => (MayKnowAll k → MayKnowAll m) ∧ (MayKnowAll k ∨ E m ad n k)
  | .stretched p _ _ _ _ => MayKnowAll p
  | .derived x _ _ _ => MayKnowAll x
  | .base64 s => MayKnowAll s

/-- A string of such symbols. -/
def MayKnowAll : List Symbol → Prop
  | [] => True
  | a :: s => MayKnow a ∧ MayKnowAll s

end

variable {A E}

theorem mayKnowAll_iff {s : List Symbol} : MayKnowAll A E s ↔ All (MayKnow A E) s := by
  induction s with
  | nil => simp [MayKnowAll]
  | cons a s ih => simp [MayKnowAll, ih]

theorem mayKnow_byte (b : UInt8) : MayKnow A E (Alphabet.ofByte b) := trivial

/-- All symbols of a result alike. -/
theorem all_block {f : Nat → Symbol} {n : Nat} (h : ∀ i, MayKnow A E (f i)) :
    All (MayKnow A E) (block f n) := by
  intro a ha
  obtain ⟨i, -, rfl⟩ := mem_block.mp ha
  exact h i

/-- The first symbol of a result. -/
theorem mayKnow_of_block {f : Nat → Symbol} {n : Nat} (hn : 0 < n)
    (h : All (MayKnow A E) (block f n)) : MayKnow A E (f 0) :=
  h _ (mem_block.mpr ⟨0, hn, rfl⟩)

/-! ## The bound of each function -/

theorem mayKnow_base64Encode {s : List Symbol} :
    All (MayKnow A E) (Crypto.base64Encode s) ↔ All (MayKnow A E) s := by
  change All (MayKnow A E) (symBase64 s) ↔ _
  unfold symBase64
  split
  · rename_i b hb
    rw [← ofBytes_toBytes hb]
    exact ⟨fun _ => Json.all_ofBytes mayKnow_byte b, fun _ => Json.all_ofBytes mayKnow_byte _⟩
  · rw [all_cons, MayKnow, mayKnowAll_iff]
    exact ⟨fun h => h.1, fun h => ⟨h, all_nil⟩⟩

theorem mayKnow_boxPublicKey (k : List Symbol) : All (MayKnow A E) (Crypto.boxPublicKey k) :=
  all_block fun _ => trivial

theorem mayKnow_signPublicKey (k : List Symbol) : All (MayKnow A E) (Crypto.signPublicKey k) :=
  all_block fun _ => trivial

/-- The product of a known key is known. -/
theorem mayKnow_scalarmult {k p s : List Symbol} (h : Crypto.scalarmult k p = some s)
    (hk : All (MayKnow A E) k) : All (MayKnow A E) s := by
  obtain rfl : symScalarmult k p = s := Option.some.inj h
  unfold symScalarmult
  split
  · rename_i l _
    refine all_block fun i => ?_
    rw [MayKnow, mayKnowAll_iff, mayKnowAll_iff]
    rcases ordered_eq k l with heq | heq
    · exact .inl (heq ▸ hk)
    · exact .inr (heq ▸ hk)
  · exact all_block fun i => mayKnowAll_iff.mpr hk

/-- **The secret of two key pairs takes one of the private keys.** -/
theorem mayKnow_shared {k l s : List Symbol}
    (h : Crypto.scalarmult k (Crypto.boxPublicKey l) = some s) (hs : All (MayKnow A E) s) :
    All (MayKnow A E) k ∨ All (MayKnow A E) l := by
  rw [scalarmult_boxPublicKey] at h
  obtain rfl := Option.some.inj h
  have hfirst := mayKnow_of_block (by decide) hs
  rw [MayKnow, mayKnowAll_iff, mayKnowAll_iff] at hfirst
  rcases ordered_eq k l with heq | heq
  · rwa [heq] at hfirst
  · rw [heq] at hfirst
    exact hfirst.symm

theorem mayKnow_hkdf {x info salt r : List Symbol} (h : Crypto.hkdf x info salt = some r) :
    All (MayKnow A E) r ↔ All (MayKnow A E) x := by
  obtain rfl := Option.some.inj h
  constructor
  · intro hr
    exact mayKnowAll_iff.mp (mayKnow_of_block (by decide) hr)
  · intro hx
    exact all_block fun i => mayKnowAll_iff.mpr hx

theorem mayKnow_pwhash {p s r : List Symbol} {ops mem : UInt64}
    (h : Crypto.pwhash p s ops mem = some r) (hp : All (MayKnow A E) p) :
    All (MayKnow A E) r := by
  obtain rfl := Option.some.inj h
  exact all_block fun i => mayKnowAll_iff.mpr hp

theorem mayKnow_signDetached (m k : List Symbol) : All (MayKnow A E) (Crypto.signDetached m k) :=
  all_block fun _ => trivial

theorem mayKnow_aeadEncrypt {m ad n k : List Symbol} :
    All (MayKnow A E) (Crypto.aeadEncrypt m ad n k) ↔
      (All (MayKnow A E) k → All (MayKnow A E) m) ∧
        (All (MayKnow A E) k ∨ E m ad n k) := by
  constructor
  · intro h
    have hfirst := mayKnow_of_block (by omega) h
    rwa [MayKnow, mayKnowAll_iff, mayKnowAll_iff] at hfirst
  · intro h
    refine all_block fun i => ?_
    rwa [MayKnow, mayKnowAll_iff, mayKnowAll_iff]

/-! ## Nothing else is derived -/

/-- **Every string the attacker makes stays within the bound.** -/
theorem mayKnow_of_derives {seen : Set (List Symbol)} {s : List Symbol}
    (hseen : ∀ s ∈ seen, All (MayKnow A E) s) (h : Derives A seen s) : All (MayKnow A E) s := by
  induction h with
  | observe h => exact hseen _ h
  | bytes s => exact Json.all_ofBytes mayKnow_byte s
  | random n i => exact all_cons.mpr ⟨trivial, all_nil⟩
  | own h i => exact all_cons.mpr ⟨h, all_nil⟩
  | text h => exact all_cons.mpr ⟨h, all_nil⟩
  | boxPublicKey k => exact mayKnow_boxPublicKey k
  | signPublicKey k => exact mayKnow_signPublicKey k
  | append _ _ hs ht => exact all_append.mpr ⟨hs, ht⟩
  | rearrange _ ht hs => exact hs.mono ht
  | base64Encode _ hs => exact mayKnow_base64Encode.mpr hs
  | base64Decode _ h ht =>
      rw [LawfulBase64.decode_iff.mp h] at ht
      exact mayKnow_base64Encode.mp ht
  | scalarmult _ _ h hk _ => exact mayKnow_scalarmult h hk
  | signDetached _ _ _ _ => exact mayKnow_signDetached _ _
  | aeadEncrypt _ _ _ _ hm _ _ hk => exact mayKnow_aeadEncrypt.mpr ⟨fun _ => hm, .inl hk⟩
  | aeadDecrypt _ _ h hc hk =>
      rw [aeadDecrypt_eq_some.mp h] at hc
      exact (mayKnow_aeadEncrypt.mp hc).1 hk
  | pwhash ops mem _ _ h hp _ => exact mayKnow_pwhash h hp
  | hkdf _ _ _ h hx _ _ => exact (mayKnow_hkdf h).mpr hx

/-! ## Private keys -/

/-- A private key that the attacker does not own. -/
def Attacker.Lacks (A : Attacker) (key : List Symbol) : Prop :=
  ∃ n len, n ∉ A.owns ∧ 0 < len ∧ key = block (.privateKey n) len

theorem Attacker.Lacks.not_mayKnow {key : List Symbol} (h : A.Lacks key) :
    ¬ All (MayKnow A E) key := by
  obtain ⟨n, len, hn, hlen, rfl⟩ := h
  exact fun hall => hn (mayKnow_of_block hlen hall)

end Bound

end Kd
