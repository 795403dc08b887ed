/-
  Strings of bits, the most significant bit first, and strings of bytes as strings of bits.
-/
import Plibsys.Lib.Blocks
import Plibsys.Lib.Bytes

namespace BitStrings

open Blocks Bytes

/-- The number that the bits denote. -/
def number (bits : List Bool) : ℕ := bits.foldl (fun x b => 2 * x + b.toNat) 0

/-- The `n` low bits of a number. -/
def binary : ℕ → ℕ → List Bool
  | 0, _ => []
  | n + 1, x => binary n (x / 2) ++ [x.testBit 0]

/-- The bits of the bytes. -/
def bitString (bs : List UInt8) : List Bool := bs.flatMap fun b => binary 8 b.toNat

/-- The bytes in the opposite order. -/
def reverseOctets (bits : List Bool) : List Bool :=
  (List.range (bits.length / 8)).reverse.flatMap (block 8 bits)

variable {bits cs : List Bool} {bs : List UInt8} {n m x y : ℕ}

@[simp] theorem length_binary : (binary n x).length = n := by
  induction n generalizing x with
  | zero => rfl
  | succ n ih => rw [binary, List.length_append, ih, List.length_singleton]

@[simp] theorem length_bitString : (bitString bs).length = 8 * bs.length := by
  induction bs with
  | nil => rfl
  | cons b bs ih =>
    rw [bitString, List.flatMap_cons, List.length_append, length_binary, ← bitString, ih, List.length_cons]
    omega

theorem number_append_singleton (bits : List Bool) (b : Bool) :
    number (bits ++ [b]) = 2 * number bits + b.toNat := by
  rw [number, List.foldl_append]
  rfl

theorem number_append (bits cs : List Bool) : number (bits ++ cs) = 2 ^ cs.length * number bits + number cs := by
  induction cs using List.reverseRecOn with
  | nil => simp [number]
  | append_singleton cs b ih =>
    rw [← List.append_assoc, number_append_singleton, ih, number_append_singleton, List.length_append, Nat.pow_add,
      List.length_singleton, Nat.pow_one, Nat.mul_add, ← Nat.mul_assoc, Nat.mul_comm 2, Nat.add_assoc]

theorem number_binary : number (binary n x) = x % 2 ^ n := by
  induction n generalizing x with
  | zero => rw [Nat.pow_zero, Nat.mod_one]; rfl
  | succ n ih =>
    rw [binary, number_append_singleton, ih, Nat.pow_succ', Nat.mod_mul, Nat.testBit_zero]
    rcases Nat.mod_two_eq_zero_or_one x with h | h <;> rw [h] <;> simp [Nat.add_comm]

theorem binary_add (n m x : ℕ) : binary (n + m) x = binary n (x / 2 ^ m) ++ binary m x := by
  induction m generalizing x with
  | zero => simp [binary]
  | succ m ih =>
    rw [← Nat.add_assoc, binary, ih, binary, ← List.append_assoc, Nat.div_div_eq_div_mul, Nat.pow_succ']

theorem binary_mod (n x : ℕ) : binary n (x % 2 ^ n) = binary n x := by
  induction n generalizing x with
  | zero => rfl
  | succ n ih =>
    have hdiv : x % 2 ^ (n + 1) / 2 = x / 2 % 2 ^ n := by
      rw [Nat.pow_succ', Nat.mod_mul_right_div_self]
    rw [binary, binary, hdiv, ih, Nat.testBit_mod_two_pow]
    simp

theorem bitString_cons (b : UInt8) (bs : List UInt8) : bitString (b :: bs) = binary 8 b.toNat ++ bitString bs :=
  List.flatMap_cons ..

theorem bitString_append (bs cs : List UInt8) : bitString (bs ++ cs) = bitString bs ++ bitString cs :=
  List.flatMap_append ..

theorem bitString_injective {cs : List UInt8} (h : bitString bs = bitString cs) : bs = cs := by
  induction bs generalizing cs with
  | nil =>
    cases cs with
    | nil => rfl
    | cons c cs => simpa using congrArg List.length h
  | cons b bs ih =>
    cases cs with
    | nil => simpa using congrArg List.length h
    | cons c cs =>
      rw [bitString_cons, bitString_cons] at h
      obtain ⟨hbits, hrest⟩ := List.append_inj h (by rw [length_binary, length_binary])
      have hnat : b.toNat = c.toNat := by
        have hnumber := congrArg number hbits
        rwa [number_binary, number_binary, Nat.mod_eq_of_lt b.toNat_lt, Nat.mod_eq_of_lt c.toNat_lt] at hnumber
      rw [UInt8.toNat_inj.1 hnat, ih hrest]

theorem bitString_singleton (b : UInt8) : bitString [b] = binary 8 b.toNat := List.append_nil _

/-! ## Blocks of bytes -/

theorem drop_bitString (k : ℕ) (bs : List UInt8) : (bitString bs).drop (8 * k) = bitString (bs.drop k) := by
  induction k generalizing bs with
  | zero => rfl
  | succ k ih =>
    cases bs with
    | nil => rw [List.drop_nil]; rfl
    | cons b bs =>
      have hlen : 8 * (k + 1) = (binary 8 b.toNat).length + 8 * k := by
        rw [length_binary]
        omega
      rw [bitString_cons, List.drop_succ_cons, hlen, List.drop_length_add_append, ih]

theorem take_bitString (k : ℕ) (bs : List UInt8) : (bitString bs).take (8 * k) = bitString (bs.take k) := by
  induction k generalizing bs with
  | zero => rfl
  | succ k ih =>
    cases bs with
    | nil => rw [List.take_nil]; rfl
    | cons b bs =>
      have hlen : 8 * (k + 1) = (binary 8 b.toNat).length + 8 * k := by
        rw [length_binary]
        omega
      rw [bitString_cons, List.take_succ_cons, bitString_cons, hlen, List.take_length_add_append, ih]

/-- A block of bits is a block of bytes. -/
theorem block_bitString (n : ℕ) (bs : List UInt8) (i : ℕ) :
    block (8 * n) (bitString bs) i = bitString (block n bs i) := by
  rw [block, Nat.mul_assoc, drop_bitString, take_bitString, block]

theorem chain_bitString {β : Type} {f : β → List Bool → β} {g : β → List UInt8 → β} {k : ℕ} (n : ℕ) (a : β)
    (bs : List UInt8) (hk : n * k ≤ bs.length) (h : ∀ b xs, xs.length = n → f b (bitString xs) = g b xs) :
    chain f (8 * n) a (bitString bs) k = chain g n a bs k := by
  induction k with
  | zero => rfl
  | succ k ih =>
    rw [chain, chain, ih (Nat.le_trans (Nat.mul_le_mul_left n (Nat.le_succ k)) hk), block_bitString,
      h _ _ (length_block hk)]

/-! ## Numbers -/

theorem number_bitString (bs : List UInt8) : number (bitString bs) = ofBytes .big bs := by
  induction bs using List.reverseRecOn with
  | nil => rfl
  | append_singleton bs b ih =>
    have hlt := b.toNat_lt
    rw [bitString_append, bitString_singleton, number_append, ih, number_binary, length_binary, ofBytes, ofBytes,
      List.reverse_append, List.reverse_singleton, List.singleton_append, value]
    omega

theorem bitString_toBytes (n x : ℕ) : bitString (toBytes .big n x) = binary (8 * n) x := by
  induction n generalizing x with
  | zero => rfl
  | succ n ih =>
    have hbyte : toBytes .big 1 x = [UInt8.ofNat x] := rfl
    have hlow : binary 8 (UInt8.ofNat x).toNat = binary 8 x := by
      rw [UInt8.toNat_ofNat']
      exact binary_mod 8 x
    rw [Nat.add_comm n 1, toBytes_big_add, hbyte, bitString_append, ih, bitString_singleton, hlow, Nat.mul_add,
      Nat.mul_one, Nat.add_comm 8, binary_add]
    rfl

/-- The elements from the last one to the first one. -/
theorem reverse_flatMap_block {α : Type} (xs : List α) :
    (List.range xs.length).reverse.flatMap (block 1 xs) = xs.reverse := by
  induction xs using List.reverseRecOn with
  | nil => rfl
  | append_singleton xs x ih =>
    have hlast : block 1 (xs ++ [x]) xs.length = [x] := by
      rw [← List.append_nil (xs ++ [x])]
      exact block_append (Nat.one_mul _).symm rfl []
    have hfirst : ∀ i ∈ (List.range xs.length).reverse, block 1 (xs ++ [x]) i = block 1 xs i := by
      intro i hi
      have hlt := List.mem_range.1 (List.mem_reverse.1 hi)
      exact block_append_left (by omega)
    rw [List.length_append, List.length_singleton, List.range_succ, List.reverse_append, List.reverse_singleton,
      List.flatMap_append, List.flatMap_singleton, hlast, List.flatMap_congr hfirst, ih, List.reverse_append,
      List.reverse_singleton]

/-- The octets in the opposite order are the bytes in the opposite order. -/
theorem reverseOctets_bitString (bs : List UInt8) : reverseOctets (bitString bs) = bitString bs.reverse := by
  have hlen : (bitString bs).length / 8 = bs.length := by
    rw [length_bitString]
    omega
  have hblock : block 8 (bitString bs) = fun i => bitString (block 1 bs i) := funext (block_bitString 1 bs)
  rw [reverseOctets, hlen, hblock, ← reverse_flatMap_block bs, bitString, List.flatMap_assoc]
  rfl

end BitStrings
