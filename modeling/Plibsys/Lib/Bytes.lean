/-
  Numbers as bytes, in both byte orders.

  `ofBytes o bs` is the number that the bytes `bs` denote in the order `o`, `toBytes o n x`
  are the `n` low bytes of `x`; `word` and `bytes` are the same for bit vectors.
-/
import Mathlib.Data.BitVec
import Mathlib.Data.List.GetD
import Mathlib.Tactic.Common

namespace Bytes

inductive ByteOrder where
  | little
  | big
  deriving DecidableEq, Repr

/-- The number with these base 256 digits, the least significant first. -/
def value : List UInt8 → ℕ
  | [] => 0
  | b :: bs => b.toNat + 256 * value bs

/-- The `n` low base 256 digits of `x`, the least significant first. -/
def digits : ℕ → ℕ → List UInt8
  | 0, _ => []
  | n + 1, x => UInt8.ofNat x :: digits n (x / 256)

def ofBytes : ByteOrder → List UInt8 → ℕ
  | .little, bs => value bs
  | .big, bs => value bs.reverse

def toBytes : ByteOrder → ℕ → ℕ → List UInt8
  | .little, n, x => digits n x
  | .big, n, x => (digits n x).reverse

variable {o o' : ByteOrder} {n m x w : ℕ} {bs cs : List UInt8}

@[simp] theorem length_digits : (digits n x).length = n := by
  induction n generalizing x with
  | zero => rfl
  | succ n ih => rw [digits, List.length_cons, ih]

@[simp] theorem length_toBytes : (toBytes o n x).length = n := by
  cases o <;> simp [toBytes]

theorem value_digits : value (digits n x) = x % 256 ^ n := by
  induction n generalizing x with
  | zero => simp [digits, value, Nat.mod_one]
  | succ n ih =>
    have hpow : 256 ^ (n + 1) = 256 * 256 ^ n := Nat.pow_succ'
    rw [digits, value, ih, UInt8.toNat_ofNat', hpow, Nat.mod_mul]

theorem digits_value (h : bs.length = n) : digits n (value bs) = bs := by
  induction bs generalizing n with
  | nil => subst h; rfl
  | cons b bs ih =>
    subst h
    have hlt := b.toNat_lt
    rw [List.length_cons, digits, value, Nat.add_mul_div_left _ _ (by decide), Nat.div_eq_of_lt hlt,
      Nat.zero_add, ih rfl]
    congr 1
    apply UInt8.toNat_inj.1
    rw [UInt8.toNat_ofNat', Nat.add_mul_mod_self_left, Nat.mod_eq_of_lt hlt]

theorem value_lt (h : bs.length = n) : value bs < 256 ^ n := by
  rw [← digits_value h, value_digits]
  exact Nat.mod_lt _ (Nat.pow_pos (by decide))

theorem ofBytes_toBytes : ofBytes o (toBytes o n x) = x % 256 ^ n := by
  cases o <;> simp [ofBytes, toBytes, value_digits]

theorem toBytes_ofBytes (h : bs.length = n) : toBytes o n (ofBytes o bs) = bs := by
  cases o with
  | little => exact digits_value h
  | big => rw [toBytes, ofBytes, digits_value (by rwa [List.length_reverse]), List.reverse_reverse]

theorem ofBytes_lt (h : bs.length = n) : ofBytes o bs < 256 ^ n := by
  cases o with
  | little => exact value_lt h
  | big => exact value_lt (by rwa [List.length_reverse])

theorem digits_add (x : ℕ) : digits (n + m) x = digits n x ++ digits m (x / 256 ^ n) := by
  induction n generalizing x with
  | zero => simp [digits]
  | succ n ih =>
    rw [Nat.add_right_comm, digits, digits, ih, Nat.div_div_eq_div_mul, Nat.pow_succ', List.cons_append]

theorem digits_mod (x : ℕ) : digits n (x % 256 ^ n) = digits n x := by
  rw [← value_digits, digits_value length_digits]

theorem toBytes_little_add (x : ℕ) :
    toBytes .little (n + m) x = toBytes .little n x ++ toBytes .little m (x / 256 ^ n) := digits_add x

theorem toBytes_big_add (x : ℕ) : toBytes .big (n + m) x = toBytes .big m (x / 256 ^ n) ++ toBytes .big n x := by
  rw [toBytes, digits_add, List.reverse_append]
  rfl

theorem toBytes_mod (x : ℕ) : toBytes o n (x % 256 ^ n) = toBytes o n x := by
  cases o <;> simp [toBytes, digits_mod]

/-! ## Words -/

/-- The word that these bytes denote. -/
def word (o : ByteOrder) (w : ℕ) (bs : List UInt8) : BitVec w := BitVec.ofNat w (ofBytes o bs)

/-- The bytes of a word. -/
def bytes (o : ByteOrder) (v : BitVec w) : List UInt8 := toBytes o (w / 8) v.toNat

@[simp] theorem length_bytes {v : BitVec w} : (bytes o v).length = w / 8 := length_toBytes

theorem pow_div_eight (hw : 8 ∣ w) : 256 ^ (w / 8) = 2 ^ w := by
  rw [show 256 = 2 ^ 8 by rfl, ← Nat.pow_mul, Nat.mul_div_cancel' hw]

theorem word_bytes (hw : 8 ∣ w) (v : BitVec w) : word o w (bytes o v) = v := by
  rw [word, bytes, ofBytes_toBytes, pow_div_eight hw, Nat.mod_eq_of_lt v.isLt, BitVec.ofNat_toNat,
    BitVec.setWidth_eq]

theorem bytes_word (hw : 8 ∣ w) (h : bs.length = w / 8) : bytes o (word o w bs) = bs := by
  have hlt : ofBytes o bs < 2 ^ w := pow_div_eight hw ▸ ofBytes_lt h
  rw [bytes, word, BitVec.toNat_ofNat, Nat.mod_eq_of_lt hlt, toBytes_ofBytes h]

/-- The bytes of a word that is known modulo `2 ^ w`. -/
theorem bytes_of_toNat (hw : 8 ∣ w) {v : BitVec w} (h : v.toNat = x % 2 ^ w) :
    bytes o v = toBytes o (w / 8) x := by
  rw [bytes, h, ← pow_div_eight hw, toBytes_mod]

/-- The word with the bytes in the opposite order. -/
def reverseBytes (v : BitVec w) : BitVec w := word .big w (bytes .little v)

theorem word_reverse : word .little w bs.reverse = word .big w bs := rfl

theorem reverseBytes_word (hw : 8 ∣ w) (h : bs.length = w / 8) (hne : o ≠ o') :
    reverseBytes (word o w bs) = word o' w bs := by
  cases o <;> cases o'
  · exact absurd rfl hne
  · rw [reverseBytes, bytes_word hw h]
  · rw [← word_reverse, reverseBytes, bytes_word hw (by rwa [List.length_reverse]), ← word_reverse,
      List.reverse_reverse]
  · exact absurd rfl hne

/-- The bytes of the reversed word, in one order, are those of the word in the other. -/
theorem bytes_reverseBytes (hw : 8 ∣ w) (v : BitVec w) (hne : o ≠ o') : bytes o (reverseBytes v) = bytes o' v := by
  have hlen : (bytes o' v).length = w / 8 := length_bytes
  rw [← word_bytes (o := o') hw v, reverseBytes_word hw hlen (Ne.symm hne), bytes_word hw hlen, word_bytes hw]

/-! ## Bits -/

theorem testBit_value {i j : ℕ} (hi : i < 8) : (value bs).testBit (8 * j + i) = (bs.getD j 0).toNat.testBit i := by
  induction bs generalizing j with
  | nil => simp [value]
  | cons b bs ih =>
    have hb := b.toNat_lt
    cases j with
    | zero =>
      rw [value, Nat.add_comm, show 256 = 2 ^ 8 by rfl, Nat.testBit_two_pow_mul_add _ hb]
      simp [hi]
    | succ j =>
      rw [value, Nat.add_comm, show 256 = 2 ^ 8 by rfl, Nat.testBit_two_pow_mul_add _ hb, if_neg (by omega),
        show 8 * (j + 1) + i - 8 = 8 * j + i by omega, ih]
      rfl

theorem testBit_digits {i j : ℕ} (hi : i < 8) (hj : j < n) :
    ((digits n x).getD j 0).toNat.testBit i = x.testBit (8 * j + i) := by
  have hlt : 8 * j + i < 8 * n := by omega
  rw [← testBit_value hi, value_digits, show 256 = 2 ^ 8 by rfl, ← Nat.pow_mul, Nat.testBit_mod_two_pow,
    decide_eq_true hlt, Bool.true_and]

/-- The bits of each byte stay together. -/
theorem getLsbD_reverseBytes (hw : 8 ∣ w) (v : BitVec w) {k : ℕ} (hk : k < w) :
    (reverseBytes v).getLsbD k = v.getLsbD (8 * (w / 8 - 1 - k / 8) + k % 8) := by
  have hj : k / 8 < w / 8 := by omega
  have hi : k % 8 < 8 := Nat.mod_lt _ (by decide)
  have hget : (digits (w / 8) v.toNat).reverse.getD (k / 8) 0 =
    (digits (w / 8) v.toNat).getD (w / 8 - 1 - k / 8) 0 := by
    rw [List.getD_reverse _ (by rwa [length_digits]), length_digits]
  have hbit : (value (digits (w / 8) v.toNat).reverse).testBit k =
      v.toNat.testBit (8 * (w / 8 - 1 - k / 8) + k % 8) := by
    conv_lhs => rw [← Nat.div_add_mod k 8]
    rw [testBit_value hi, hget, testBit_digits hi (by omega)]
  rw [reverseBytes, word, ofBytes, BitVec.getLsbD_ofNat, decide_eq_true hk, Bool.true_and]
  exact hbit

end Bytes
