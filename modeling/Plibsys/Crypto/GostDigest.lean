/-
  The digest of GOST R 34.11-94 is the hash of the standard, as long as the sum of the blocks keeps its carries.
-/
import Mathlib.Algebra.BigOperators.Group.Finset.Basic
import Plibsys.Crypto.GostBlock
import Plibsys.Crypto.GostSum
import Plibsys.Crypto.HashStandards

namespace Plibsys

open BitParts Blocks Bytes Gost94 WordSum
open BitStrings (bitString binary reverseOctets)

variable {M bs : List UInt8} {k : ℕ} {a b : Vector puint32 8}

/-! ## Blocks as numbers -/

theorem testBit_number {as : List puint32} {q r : ℕ} (hr : r < 32) :
    (number as).testBit (32 * q + r) = (as.getD q 0).getLsbD r := by
  induction as generalizing q with
  | nil => simp [number]
  | cons a as ih =>
    rw [number_cons, Nat.add_comm, Nat.testBit_two_pow_mul_add _ a.isLt]
    cases q with
    | zero => rw [Nat.mul_zero, Nat.zero_add, if_pos hr]; rfl
    | succ q =>
      rw [if_neg (by omega), show 32 * (q + 1) + r - 32 = 32 * q + r by omega, ih]
      rfl

theorem block_of_number (v : Vector puint32 8) : gost3411Block v = BitVec.ofNat 256 (number v.toList) := by
  refine BitVec.eq_of_getLsbD_eq fun i hi => ?_
  have hq : i / 32 < 8 := by omega
  have hr := Nat.mod_lt i (show 32 > 0 by decide)
  have hget : v.toList.getD (i / 32) 0 = v[i / 32] := by
    rw [List.getD_eq_getElem _ _ (by rwa [Vector.length_toList]), Vector.getElem_toList]
  rw [BitVec.getLsbD_ofNat, decide_eq_true hi, Bool.true_and, ← Nat.div_add_mod i 32, testBit_number hr, hget]
  exact getLsbD_join v hq hr

/-- The words of some bytes. -/
theorem block_gost3411Words (bs : List UInt8) :
    gost3411Block (gost3411Words .little bs) = BitVec.ofNat 256 (value bs) := by
  refine BitVec.eq_of_getLsbD_eq fun i hi => ?_
  have hq : i / 32 < 8 := by omega
  have hr := Nat.mod_lt i (show 32 > 0 by decide)
  have hbyte := Nat.mod_lt i (show 8 > 0 by decide)
  have hword : (gost3411Block (gost3411Words .little bs)).getLsbD i =
      (gost3411Words .little bs)[i / 32].getLsbD (i % 32) := by
    conv_lhs => rw [← Nat.div_add_mod i 32]
    exact getLsbD_join _ hq hr
  have hget : ((bs.drop (4 * (i / 32))).take 4).getD (i % 32 / 8) 0 = bs.getD (i / 8) 0 := by
    rw [List.getD_eq_getElem?_getD, List.getD_eq_getElem?_getD, List.getElem?_take, if_pos (by omega),
      List.getElem?_drop]
    congr 2
    omega
  rw [hword, gost3411Words, Vector.getElem_ofFn, word, BitVec.getLsbD_ofNat, decide_eq_true hr, Bool.true_and,
    BitVec.getLsbD_ofNat, decide_eq_true hi, Bool.true_and, ofBytes,
      show i % 32 = 8 * (i % 32 / 8) + i % 8 by omega,
    testBit_value hbyte, hget, ← testBit_value hbyte, Nat.div_add_mod]

theorem block_sum256 (h : ¬ LosesCarry 32 8 (number a.toList) (number b.toList) 0) :
    gost3411Block (ppCryptoHashGost3411Sum256 a b) = gost3411Block a + gost3411Block b := by
  rw [block_of_number, block_of_number, block_of_number, number_sum256_iff.2 h, ← BitVec.ofNat_add]
  refine BitVec.eq_of_toNat_eq ?_
  rw [BitVec.toNat_ofNat, BitVec.toNat_ofNat, Nat.mod_mod]

theorem toNat_block (v : Vector puint32 8) : (gost3411Block v).toNat = number v.toList := by
  have hlt := Nat.ofDigits_lt_base_pow_length (b := 2 ^ 32) (l := v.toList.map BitVec.toNat)
    (by decide) fun x hx => by
    obtain ⟨u, -, rfl⟩ := List.mem_map.1 hx
    exact u.isLt
  rw [List.length_map, Vector.length_toList, ← Nat.pow_mul] at hlt
  rw [block_of_number, BitVec.toNat_ofNat, number, Nat.mod_eq_of_lt hlt]

theorem number_of_block {x : ℕ} (h : gost3411Block a = BitVec.ofNat 256 x) : number a.toList = x % 2 ^ 256 := by
  rw [← toNat_block, h, BitVec.toNat_ofNat]

/-! ## The blocks of a message -/

/-- The sum of the first `k` blocks. -/
def gost3411Total (M : List UInt8) (k : ℕ) : ℕ := ∑ i ∈ Finset.range k, value (block 32 M i)

/-- No carry of the sums of the blocks comes to two words of ones that have a word behind them. -/
def GostKeepsCarries (M : List UInt8) : Prop :=
  ∀ k, 32 * k < M.length → ¬ LosesCarry 32 8 (gost3411Total M k % 2 ^ 256) (value (block 32 M k)) 0

/-- The hash value and the sum after the first `k` blocks of the padded message. -/
def gost3411After (M : List UInt8) (k : ℕ) : Vector puint32 8 × Vector puint32 8 :=
  chain gost3411Step 32 (Vector.replicate 8 0, Vector.replicate 8 0) (M ++ gost3411Padding M.length) k

theorem value_zeros (bs : List UInt8) (k : ℕ) : value (bs ++ List.replicate k 0) = value bs := by
  induction bs with
  | nil =>
    induction k with
    | zero => rfl
    | succ k ih =>
      rw [List.nil_append] at ih ⊢
      rw [List.replicate_succ]
      show 0 + 256 * value (List.replicate k 0) = 0
      rw [ih]
      rfl
  | cons b bs ih => rw [List.cons_append, value, ih, value]

/-- The padding does not change the number of a block. -/
theorem value_block_padded (hk : 32 * k < M.length) :
    value (block 32 (M ++ gost3411Padding M.length) k) = value (block 32 M k) := by
  by_cases hfull : 32 * (k + 1) ≤ M.length
  · rw [block_append_left hfull]
  · have hlen : (M.drop (32 * k)).length ≤ 32 := by
      rw [List.length_drop]
      omega
    have hlast : (M.drop (32 * k) ++ gost3411Padding M.length).length ≤ 32 := by
      rw [List.length_append, List.length_drop, gost3411Padding, List.length_replicate]
      omega
    rw [block, block, List.drop_append_of_le_length hk.le, List.take_of_length_le hlast,
      List.take_of_length_le hlen,
      gost3411Padding, value_zeros]

theorem value_block_lt (M : List UInt8) (k : ℕ) : value (block 32 M k) < 2 ^ 256 := by
  have hlen : (block 32 M k).length ≤ 32 := List.length_take_le ..
  calc value (block 32 M k) < 256 ^ (block 32 M k).length := value_lt rfl
    _ ≤ 256 ^ 32 := Nat.pow_le_pow_right (by decide) hlen
    _ = 2 ^ 256 := by norm_num

/-- **One block**, as the standard takes it in. -/
theorem gost3411After_succ (hkeeps : GostKeepsCarries M) (hk : 32 * k < M.length)
    (htotal : gost3411Block (gost3411After M k).2 = BitVec.ofNat 256 (gost3411Total M k)) :
    let Ms := BitVec.ofNat 256 (value (block 32 M k))
    gost3411Block (gost3411After M (k + 1)).1 = stepHash gostSbox (gost3411Block (gost3411After M k).1) Ms ∧
    gost3411Block (gost3411After M (k + 1)).2 = gost3411Block (gost3411After M k).2 + Ms := by
  intro Ms
  have hwords : gost3411Block (gost3411Words .little (block 32 (M ++ gost3411Padding M.length) k)) = Ms := by
    rw [block_gost3411Words, value_block_padded hk]
  have hnumber := number_of_block hwords
  rw [Nat.mod_eq_of_lt (value_block_lt M k)] at hnumber
  refine ⟨?_, ?_⟩
  · rw [gost3411After, chain, gost3411Step, block_gost3411Process, hwords, ← gost3411After]
  · rw [gost3411After, chain, gost3411Step, block_sum256, hwords, ← gost3411After]
    rw [← gost3411After, number_of_block htotal, hnumber]
    exact hkeeps k hk

theorem gost3411After_total (hkeeps : GostKeepsCarries M) (hk : 32 * k < M.length + 32) :
    gost3411Block (gost3411After M k).2 = BitVec.ofNat 256 (gost3411Total M k) := by
  induction k with
  | zero => rw [block_of_number]; rfl
  | succ k ih =>
    have htotal := ih (by omega)
    obtain ⟨-, hsum⟩ := gost3411After_succ hkeeps (by omega) htotal
    rw [hsum, htotal, ← BitVec.ofNat_add, gost3411Total, gost3411Total, Finset.sum_range_succ]

/-! ## The hash -/

theorem number_reverse (bs : List UInt8) : BitStrings.number (bitString bs.reverse) = value bs := by
  rw [BitStrings.number_bitString, ofBytes, List.reverse_reverse]

/-- The standard takes the full blocks in turn. -/
theorem hashFrom_blocks (hkeeps : GostKeepsCarries M) (hk : 32 * k < M.length) :
    Gost94.hash gostSbox (bitString M.reverse) = hashFrom gostSbox (gost3411Block (gost3411After M k).1)
      (gost3411Block (gost3411After M k).2) (256 * k) (bitString (M.drop (32 * k)).reverse) := by
  induction k with
  | zero =>
    have hzero : gost3411Block (Vector.replicate 8 0) = 0 := by
      rw [block_of_number]
      rfl
    rw [Gost94.hash, ← hzero]
    rfl
  | succ k ih =>
    obtain ⟨hhash, hsum⟩ := gost3411After_succ hkeeps (k := k) (by omega) (gost3411After_total hkeeps (by omega))
    have hlast : M.length - 32 * k - (M.length - 32 * (k + 1)) = 32 := by omega
    have hbits : (bitString (M.drop (32 * k)).reverse).length - 256 = 8 * (M.length - 32 * (k + 1)) := by
      rw [BitStrings.length_bitString, List.length_reverse, List.length_drop]
      omega
    have hblock : (bitString (M.drop (32 * k)).reverse).drop (8 * (M.length - 32 * (k + 1))) =
        bitString (block 32 M k).reverse := by
      rw [BitStrings.drop_bitString, List.drop_reverse, List.length_drop, hlast, block]
    have hrest : (bitString (M.drop (32 * k)).reverse).take (8 * (M.length - 32 * (k + 1))) =
        bitString (M.drop (32 * (k + 1))).reverse := by
      rw [BitStrings.take_bitString, List.take_reverse, List.length_drop, hlast, List.drop_drop, Nat.mul_succ]
    rw [ih (by omega), hashFrom,
      if_pos (by rw [BitStrings.length_bitString, List.length_reverse, List.length_drop]; omega)]
    dsimp only
    rw [hbits, hblock, hrest, number_reverse, ← hhash, ← hsum, Nat.mul_succ 256]

theorem bitString_hostBytes (v : Vector puint32 8) :
    bitString (hostBytes .little v) = reverseOctets (binary 256 (gost3411Block v).toNat) := by
  rw [toNat_block, hostBytes, flatMap_bytes, Vector.length_toList, ← BitStrings.bitString_toBytes 32,
    BitStrings.reverseOctets_bitString, toBytes, toBytes, List.reverse_reverse]

/-- **The digest is the hash of the standard.** -/
theorem gost3411Digest_eq (hM : M ≠ []) (hkeeps : GostKeepsCarries M) : bitString (gost3411Digest M) =
    reverseOctets (binary 256 (Gost94.hash gostSbox (reverseOctets (bitString M))).toNat) := by
  have hpos := List.length_pos_iff.2 hM
  obtain ⟨k, hk, hle⟩ : ∃ k, 32 * k < M.length ∧ M.length ≤ 32 * (k + 1) :=
    ⟨(M.length - 1) / 32, by omega, by omega⟩
  have hblocks : (M ++ gost3411Padding M.length).length / 32 = k + 1 := by
    rw [List.length_append, gost3411Padding, List.length_replicate]
    omega
  obtain ⟨hhash, hsum⟩ := gost3411After_succ hkeeps hk (gost3411After_total hkeeps (by omega))
  have hlast : block 32 M k = M.drop (32 * k) :=
    List.take_of_length_le (by rw [List.length_drop]; omega)
  have hlength : gost3411Block (gost3411Words .little (toBytes .little 32 (8 * M.length))) =
      BitVec.ofNat 256 (256 * k + 8 * (M.drop (32 * k)).length) := by
    have hbits : 256 * k + 8 * (M.drop (32 * k)).length = 8 * M.length := by
      rw [List.length_drop]
      omega
    rw [block_gost3411Words, hbits]
    refine BitVec.eq_of_toNat_eq ?_
    rw [toBytes, value_digits, BitVec.toNat_ofNat, BitVec.toNat_ofNat,
      show 256 ^ 32 = 2 ^ 256 by norm_num, Nat.mod_mod]
  have hstandard : Gost94.hash gostSbox (bitString M.reverse) = gost3411Block (ppCryptoHashGost3411Process
      (ppCryptoHashGost3411Process (gost3411After M (k + 1)).1
        (gost3411Words .little (toBytes .little 32 (8 * M.length)))) (gost3411After M (k + 1)).2) := by
    rw [hashFrom_blocks hkeeps hk, hashFrom,
      if_neg (by rw [BitStrings.length_bitString, List.length_reverse, List.length_drop]; omega)]
    dsimp only
    rw [number_reverse, BitStrings.length_bitString, List.length_reverse, block_gost3411Process,
      block_gost3411Process, hhash, hsum, hlength, hlast]
  rw [BitStrings.reverseOctets_bitString, hstandard, ← bitString_hostBytes, gost3411Digest]
  dsimp only
  rw [hblocks]
  rfl

/-! ## A carry that is lost -/

/-- A block with two words of ones. -/
def onesBlock : List UInt8 := List.replicate 8 0xFF ++ List.replicate 24 0

/-- The hash value after the block twice and the length. -/
def onesHash : Vector puint32 8 :=
  ppCryptoHashGost3411Process
    (ppCryptoHashGost3411Process
      (ppCryptoHashGost3411Process (Vector.replicate 8 0) (gost3411Words .little onesBlock))
      (gost3411Words .little onesBlock))
    (gost3411Words .little (toBytes .little 32 512))

/-- The standard goes on with the whole sum of the two blocks. -/
theorem hash_onesBlocks : Gost94.hash gostSbox (bitString (onesBlock ++ onesBlock).reverse) =
    gost3411Block (ppCryptoHashGost3411Process onesHash #v[0xFFFFFFFE, 0xFFFFFFFF, 1, 0, 0, 0, 0, 0]) := by
  have hlength : (bitString onesBlock.reverse).length = 256 := BitStrings.length_bitString
  have hzero : (0 : Block) = gost3411Block (Vector.replicate 8 0) := by
    rw [block_of_number]
    rfl
  have hsum : gost3411Block #v[0xFFFFFFFE, 0xFFFFFFFF, 1, 0, 0, 0, 0, 0] =
      0 + BitVec.ofNat 256 (value onesBlock) + BitVec.ofNat 256 (value onesBlock) := by
    rw [block_of_number]
    decide +kernel
  have hbits : gost3411Block (gost3411Words .little (toBytes .little 32 512)) = BitVec.ofNat 256 (256 + 256) := by
    rw [block_gost3411Words, toBytes, value_digits]
    decide +kernel
  rw [List.reverse_append, BitStrings.bitString_append, Gost94.hash, hashFrom, if_pos (by simp [hlength])]
  dsimp only
  rw [List.length_append, hlength, Nat.add_sub_cancel, List.drop_left' hlength, List.take_left' hlength, hashFrom,
    if_neg (by simp [hlength])]
  dsimp only
  rw [hlength, number_reverse, Nat.zero_add, ← hsum, ← hbits, hzero, ← block_gost3411Words]
  simp only [← block_gost3411Process]
  rfl

/-- The code goes on without the carry into the third word. -/
theorem gost3411Digest_onesBlocks : gost3411Digest (onesBlock ++ onesBlock) =
    hostBytes .little (ppCryptoHashGost3411Process onesHash #v[0xFFFFFFFE, 0xFFFFFFFF, 0, 0, 0, 0, 0, 0]) := by
  have hsum : ppCryptoHashGost3411Sum256 (ppCryptoHashGost3411Sum256 (Vector.replicate 8 0)
      (gost3411Words .little onesBlock)) (gost3411Words .little onesBlock) =
        #v[0xFFFFFFFE, 0xFFFFFFFF, 0, 0, 0, 0, 0, 0] := by decide +kernel
  have hpadded : onesBlock ++ onesBlock ++ gost3411Padding (onesBlock ++ onesBlock).length =
      onesBlock ++ onesBlock := by
    decide
  have hfirst : block 32 (onesBlock ++ onesBlock) 0 = onesBlock := by decide
  have hsecond : block 32 (onesBlock ++ onesBlock) 1 = onesBlock := by decide
  have hblocks : (onesBlock ++ onesBlock).length / 32 = 2 := by decide
  have hbits : 8 * (onesBlock ++ onesBlock).length = 512 := by decide
  rw [gost3411Digest]
  dsimp only
  rw [hpadded, hblocks, hbits, chain, chain, chain, hfirst, hsecond, gost3411Step, gost3411Step, ← hsum, onesHash]

/-- The two digests differ. -/
theorem onesHash_differs :
    hostBytes .little (ppCryptoHashGost3411Process onesHash #v[0xFFFFFFFE, 0xFFFFFFFF, 0, 0, 0, 0, 0, 0]) ≠
      hostBytes .little (ppCryptoHashGost3411Process onesHash #v[0xFFFFFFFE, 0xFFFFFFFF, 1, 0, 0, 0, 0, 0]) := by
  decide +kernel

end Plibsys
