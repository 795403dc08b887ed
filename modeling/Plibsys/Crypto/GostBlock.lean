/-
  The step hash function of GOST R 34.11-94: the ciphers, the keys, and the whole function.
-/
import Mathlib.Tactic.FinCases
import Plibsys.Crypto.GostMixing

namespace Plibsys

open BitParts Compression Gost94

/-! ## GOST 28147-89 -/

/-- The substitution of `K_block`. -/
def gostSbox (i : Fin 8) (x : BitVec 4) : BitVec 4 := (ppCryptoHashGost3411KBlock[i.val]!)[x.toNat]!.setWidth 4

theorem kBlock_eq (i : Fin 8) (x : BitVec 4) :
    (ppCryptoHashGost3411KBlock[i.val]!)[x.toNat]! = (gostSbox i x).setWidth 32 := by
  have htable : ∀ i < 8, ∀ n < 16, (ppCryptoHashGost3411KBlock[i]!)[n]! =
      (((ppCryptoHashGost3411KBlock[i]!)[n]!).setWidth 4).setWidth 32 := by decide +kernel
  exact htable i i.isLt x.toNat x.isLt

theorem nibble_eq (x : puint32) (i : ℕ) : (x >>> (4 * i) &&& 0xF).toNat = (part 4 i x).toNat := by
  rw [part, BitVec.extractLsb'_toNat, BitVec.toNat_and, BitVec.toNat_ushiftRight]
  exact Nat.and_two_pow_sub_one_eq_mod _ 4

theorem part_nibble (z : BitVec 4) (k : ℕ) : part 4 k (z.setWidth 32) = if k = 0 then z else 0 := by
  apply BitVec.eq_of_getLsbD_eq
  intro j hj
  rw [getLsbD_part 4 _ _ hj, BitVec.getLsbD_setWidth]
  by_cases hk : k = 0
  · have hlt : 4 * 0 + j < 32 := by omega
    subst hk
    rw [if_pos rfl, decide_eq_true hlt, Bool.true_and, Nat.mul_zero, Nat.zero_add]
  · rw [if_neg hk, BitVec.getLsbD_of_ge z _ (by omega), Bool.and_false]
    exact BitVec.getLsbD_zero.symm

/-- What one lookup puts into a part. -/
theorem part_gost28147Substitute (x : puint32) (i j : Fin 8) :
    part 4 j (gost28147Substitute x i) = if i = j then gostSbox i (part 4 i x) else 0 := by
  have hvalue : gost28147Substitute x i = (gostSbox i (part 4 i x)).setWidth 32 <<< (4 * i.val) := by
    rw [gost28147Substitute, nibble_eq, kBlock_eq]
  rw [hvalue]
  rcases Nat.lt_or_ge j.val i.val with hlt | hge
  · rw [part_shiftLeft_low _ hlt, if_neg (Fin.ne_of_gt hlt)]
  · obtain ⟨k, hk⟩ := Nat.exists_eq_add_of_le' hge
    rw [hk, part_shiftLeft _ (by omega), part_nibble]
    have hiff : k = 0 ↔ i = j := by
      rw [Fin.ext_iff]
      omega
    simp only [hiff]

theorem gost28147Substitute_eq (x : puint32) :
    gost28147Substitute x 0 ||| gost28147Substitute x 1 ||| gost28147Substitute x 2 ||| gost28147Substitute x 3 |||
      gost28147Substitute x 4 ||| gost28147Substitute x 5 ||| gost28147Substitute x 6 ||| gost28147Substitute x 7 =
      substitute gostSbox x := by
  have hpart : ∀ j : Fin 8, part 4 j (gost28147Substitute x (0 : Fin 8) ||| gost28147Substitute x (1 : Fin 8) |||
      gost28147Substitute x (2 : Fin 8) ||| gost28147Substitute x (3 : Fin 8) |||
      gost28147Substitute x (4 : Fin 8) ||| gost28147Substitute x (5 : Fin 8) |||
      gost28147Substitute x (6 : Fin 8) ||| gost28147Substitute x (7 : Fin 8)) =
      gostSbox j (part 4 j x) := by
    intro j
    simp only [part_or, part_gost28147Substitute]
    fin_cases j <;> simp
  refine ext_part (w := 4) (n := 8) fun j hj => ?_
  refine (hpart ⟨j, hj⟩).trans (Eq.trans ?_ (part_join_self _ hj).symm)
  rw [Vector.getElem_ofFn]

theorem gost28147Round_eq (N : puint32 × puint32) (k : puint32) :
    gost28147Round N k = Gost94.round gostSbox k N := by
  rw [gost28147Round, Gost94.round, ← gost28147Substitute_eq, ← shift_or_eq_rotateLeft _ (by decide)]

theorem part_block (v : Vector puint32 8) {i : ℕ} (hi : i < 8) : part 32 i (gost3411Block v) = v[i] :=
  part_join_self v hi

/-- The keys in the order of the rounds. -/
theorem map_roundKey (key : Vector puint32 8) : (List.range 32).map (roundKey (gost3411Block key)) =
    key.toList ++ key.toList ++ key.toList ++ key.toList.reverse := by
  have hwords : key.toList = [key[0], key[1], key[2], key[3], key[4], key[5], key[6], key[7]] := by
    apply List.ext_getElem
    · exact key.size_toArray
    · intro i hi _
      have hlt : i < 8 := key.length_toList ▸ hi
      interval_cases i <;> rfl
  have hround : ∀ i, roundKey (gost3411Block key) i = key[if i < 24 then i % 8 else 7 - i % 8]! := by
    intro i
    have hlt : (if i < 24 then i % 8 else 7 - i % 8) < 8 := by
      split <;> omega
    rw [roundKey, part_block key hlt, getElem!_pos key _ hlt]
  rw [hwords, funext hround]
  rfl

/-- The cipher, as a fold over the keys of the rounds. -/
theorem encrypt_eq_foldl (sbox : Fin 8 → BitVec 4 → BitVec 4) (K : Block) (x : BitVec 64) : encrypt sbox K x =
    (fun N : BitVec 32 × BitVec 32 => (join #v[N.2, N.1] : BitVec 64)) (((List.range 32).map (roundKey K)).foldl
      (fun N k => Gost94.round sbox k N) (part 32 0 x, part 32 1 x)) :=
  congrArg (fun N : BitVec 32 × BitVec 32 => (join #v[N.2, N.1] : BitVec 64))
    (rounds_eq_foldl (part 32 0 x, part 32 1 x) (fun N k => Gost94.round sbox k N) (roundKey K) 32)

/-- **`P_GOST_28147_E` is the cipher.** -/
theorem gost28147E_eq (data : puint32 × puint32) (key : Vector puint32 8) :
    (join #v[(gost28147E data key).1, (gost28147E data key).2] : BitVec 64) =
      encrypt gostSbox (gost3411Block key) (join #v[data.1, data.2]) := by
  have hround : gost28147Round = fun N k => Gost94.round gostSbox k N := by
    funext N k
    exact gost28147Round_eq N k
  have hdata : (part 32 0 (join #v[data.1, data.2]), part 32 1 (join #v[data.1, data.2])) = data := by
    rw [part_join_self _ (by decide), part_join_self _ (by decide)]
    rfl
  rw [encrypt_eq_foldl, map_roundKey, ← hround, hdata]
  rfl

/-! ## The permutation of the bytes -/

/-- The word with its byte `s` at the place `t`. -/
def moveByte (x : puint32) (s t : ℕ) : puint32 :=
  if s < t then x <<< (8 * (t - s)) else if t < s then x >>> (8 * (s - t)) else x

theorem part_moveByte (x : puint32) (s : ℕ) {t : ℕ} (ht : t < 4) : part 8 t (moveByte x s t) = part 8 s x := by
  rw [moveByte]
  split_ifs with hlt hgt
  · have h := part_shiftLeft (w := 8) x (i := s) (k := t - s) (by omega)
    rwa [Nat.add_sub_cancel' (by omega)] at h
  · have h := part_ushiftRight (w := 8) x t (s - t)
    rwa [Nat.add_sub_cancel' (by omega)] at h
  · rw [Nat.le_antisymm (Nat.le_of_not_lt hlt) (Nat.le_of_not_lt hgt)]

/-- A row of `P_GOST_3411_P`. -/
def gatherBytes (a b c d : puint32) : puint32 :=
  (a &&& 0x000000FF) ||| (b &&& 0x0000FF00) ||| (c &&& 0x00FF0000) ||| (d &&& 0xFF000000)

theorem part_gatherBytes (x : Fin 4 → puint32) (i : Fin 4) :
    part 8 i (gatherBytes (x 0) (x 1) (x 2) (x 3)) = part 8 i (x i) := by
  have h₀ : ∀ i : Fin 4, part 8 i (0x000000FF : puint32) =
    if i = 0 then BitVec.allOnes 8 else 0 := by decide +kernel
  have h₁ : ∀ i : Fin 4, part 8 i (0x0000FF00 : puint32) =
    if i = 1 then BitVec.allOnes 8 else 0 := by decide +kernel
  have h₂ : ∀ i : Fin 4, part 8 i (0x00FF0000 : puint32) =
    if i = 2 then BitVec.allOnes 8 else 0 := by decide +kernel
  have h₃ : ∀ i : Fin 4, part 8 i (0xFF000000 : puint32) =
    if i = 3 then BitVec.allOnes 8 else 0 := by decide +kernel
  rw [gatherBytes, part_or, part_or, part_or, part_and, part_and, part_and, part_and, h₀, h₁, h₂, h₃]
  have hones : ∀ y : BitVec 8, y &&& 255#8 = y := fun y => BitVec.and_allOnes
  fin_cases i <;> simp [hones]

theorem gost3411P_rows (data : Vector puint32 8) : gost3411P data = Vector.ofFn fun k : Fin 8 =>
    let byte (t : Fin 4) := moveByte (data.get ⟨2 * t.val + k.val / 4, by omega⟩) (k.val % 4) t
    gatherBytes (byte 0) (byte 1) (byte 2) (byte 3) := rfl

/-- **`P_GOST_3411_P` is the permutation.** -/
theorem block_gost3411P (data : Vector puint32 8) : gost3411Block (gost3411P data) = P (gost3411Block data) := by
  refine ext_part (w := 8) (n := 32) fun m hm => ?_
  have hcode : part 8 m (gost3411Block (gost3411P data)) = part 8 (m % 4) (gost3411P data)[m / 4] :=
    part_join (u := 8) (k := 4) _ (by decide) (by omega)
  have hstandard : part 8 (8 * (m % 4) + m / 4) (gost3411Block data) =
      part 8 ((8 * (m % 4) + m / 4) % 4) data[(8 * (m % 4) + m / 4) / 4] :=
    part_join (u := 8) (k := 4) _ (by decide) (by omega)
  rw [hcode, P]
  refine Eq.trans ?_ (part_join_self _ hm).symm
  rw [Vector.getElem_ofFn, hstandard]
  have hmod : (8 * (m % 4) + m / 4) % 4 = m / 4 % 4 := by omega
  have hdiv : (8 * (m % 4) + m / 4) / 4 = 2 * (m % 4) + m / 4 / 4 := by omega
  have hlt : m % 4 < 4 := Nat.mod_lt m (by decide)
  simp only [gost3411P_rows, Vector.getElem_ofFn, hmod, hdiv]
  exact (part_gatherBytes (fun t => moveByte (data.get ⟨2 * t.val + m / 4 / 4, by omega⟩) (m / 4 % 4) t)
    ⟨m % 4, hlt⟩).trans (part_moveByte _ _ hlt)

/-! ## The keys -/

/-- `A` on the words. -/
def wordsA (v : Vector puint32 8) : Vector puint32 8 :=
  #v[v[2]!, v[3]!, v[4]!, v[5]!, v[6]!, v[7]!, v[0]! ^^^ v[2]!, v[1]! ^^^ v[3]!]

def xorWords (u v : Vector puint32 8) : Vector puint32 8 := Vector.ofFn fun i => u.get i ^^^ v.get i

theorem block_xorWords (u v : Vector puint32 8) :
    gost3411Block (xorWords u v) = gost3411Block u ^^^ gost3411Block v := by
  refine ext_part (w := 32) (n := 8) fun i hi => ?_
  refine (part_block _ hi).trans (Eq.trans ?_ (part_xor 32 i (gost3411Block u) (gost3411Block v)).symm)
  rw [part_block u hi, part_block v hi]
  exact Vector.getElem_ofFn hi

theorem block_wordsA (v : Vector puint32 8) : gost3411Block (wordsA v) = A (gost3411Block v) := by
  refine ext_part (w := 32) (n := 8) fun i hi => ?_
  have hcell : ∀ c b, b < 2 → 2 * c + b < 8 → part 32 b (part 64 c (gost3411Block v)) = v[2 * c + b]! := by
    intro c b hb hlt
    rw [getElem!_pos v _ hlt, ← part_block v hlt]
    exact part_part (u := 32) (k := 2) _ hb
  refine (part_block _ hi).trans (Eq.symm ?_)
  refine (part_join (u := 32) (k := 2) _ (by decide) (by omega)).trans ?_
  have hsum : ∀ b < 2, part 32 b (part 64 0 (gost3411Block v) ^^^ part 64 1 (gost3411Block v)) =
    v[b]! ^^^ v[2 + b]! := by
    intro b hb
    rw [part_xor, hcell 0 b hb (by omega), hcell 1 b hb (by omega), Nat.mul_zero, Nat.zero_add]
  match i, hi with
  | 0, _ => exact hcell 1 0 (by decide) (by decide)
  | 1, _ => exact hcell 1 1 (by decide) (by decide)
  | 2, _ => exact hcell 2 0 (by decide) (by decide)
  | 3, _ => exact hcell 2 1 (by decide) (by decide)
  | 4, _ => exact hcell 3 0 (by decide) (by decide)
  | 5, _ => exact hcell 3 1 (by decide) (by decide)
  | 6, _ => exact hsum 0 (by decide)
  | 7, _ => exact hsum 1 (by decide)

theorem gost3411Keys_eq (hash data : Vector puint32 8) :
    let C3 := #v[0xFF00FF00, 0xFF00FF00, 0x00FF00FF, 0x00FF00FF, 0x00FFFF00, 0xFF0000FF, 0x000000FF, 0xFF00FFFF]
    let U := xorWords (wordsA (wordsA hash)) C3
    gost3411Keys hash data = #v[gost3411P (xorWords hash data),
      gost3411P (xorWords (wordsA hash) (wordsA (wordsA data))),
      gost3411P (xorWords U (wordsA (wordsA (wordsA (wordsA data))))),
      gost3411P (xorWords (wordsA U) (wordsA (wordsA (wordsA (wordsA (wordsA (wordsA data)))))))] := by
  intro C3 U
  have hU : U = #v[hash[4] ^^^ 0xFF00FF00, hash[5] ^^^ 0xFF00FF00, hash[6] ^^^ 0x00FF00FF, hash[7] ^^^ 0x00FF00FF,
      hash[0] ^^^ hash[2] ^^^ 0x00FFFF00, hash[1] ^^^ hash[3] ^^^ 0xFF0000FF, hash[2] ^^^ (hash[4] ^^^ 0x000000FF),
      hash[3] ^^^ (hash[5] ^^^ 0xFF00FFFF)] := by
    rw [← BitVec.xor_assoc, ← BitVec.xor_assoc]
    rfl
  rw [gost3411Keys, hU]
  rfl

/-- **The four keys.** -/
theorem block_gost3411Keys (hash data : Vector puint32 8) {j : ℕ} (hj : j < 4) :
    gost3411Block (gost3411Keys hash data)[j] = key (gost3411Block hash) (gost3411Block data) j := by
  have hC3 : gost3411Block #v[0xFF00FF00, 0xFF00FF00, 0x00FF00FF, 0x00FF00FF,
      0x00FFFF00, 0xFF0000FF, 0x000000FF, 0xFF00FFFF] = C 3 := by decide +kernel
  have hnone : ∀ i, i ≠ 3 → ∀ X : Block, X ^^^ C i = X := by
    intro i hi X
    rw [C, if_neg hi]
    exact BitVec.xor_zero
  rw [key]
  simp only [gost3411Keys_eq]
  match j, hj with
  | 0, _ =>
    refine (block_gost3411P _).trans ?_
    rw [block_xorWords]
    rfl
  | 1, _ =>
    refine (block_gost3411P _).trans ?_
    simp only [keyState, block_xorWords, block_wordsA, hnone 2 (by decide)]
  | 2, _ =>
    refine (block_gost3411P _).trans ?_
    simp only [keyState, block_xorWords, block_wordsA, hC3, hnone 2 (by decide)]
  | 3, _ =>
    refine (block_gost3411P _).trans ?_
    simp only [keyState, block_xorWords, block_wordsA, hC3, hnone 2 (by decide), hnone 4 (by decide)]

/-! ## The step hash function -/

theorem part_pair (v : Vector puint32 8) {i : ℕ} (hi : i < 4) :
    part 64 i (gost3411Block v) = join #v[v[2 * i], v[2 * i + 1]] := by
  refine ext_part (w := 32) (n := 2) fun b hb => ?_
  refine (part_part (u := 32) (k := 2) _ hb).trans ?_
  rw [part_block v (by omega)]
  refine Eq.trans ?_ (part_join_self _ hb).symm
  match b, hb with
  | 0, _ => rfl
  | 1, _ => rfl

/-- **The encryption of the four parts.** -/
theorem block_gost3411Encrypt (hash data : Vector puint32 8) :
    gost3411Block (gost3411Encrypt hash (gost3411Keys hash data)) =
      S gostSbox (gost3411Block hash) (gost3411Block data) := by
  have hpair : ∀ i, (hi : i < 4) → part 64 i (gost3411Block (gost3411Encrypt hash (gost3411Keys hash data))) =
      encrypt gostSbox (key (gost3411Block hash) (gost3411Block data) i) (part 64 i (gost3411Block hash)) := by
    intro i hi
    rw [part_pair _ hi, part_pair _ hi, ← block_gost3411Keys hash data hi,
      ← gost28147E_eq (hash[2 * i], hash[2 * i + 1])]
    match i, hi with
    | 0, _ => rfl
    | 1, _ => rfl
    | 2, _ => rfl
    | 3, _ => rfl
  refine ext_part (w := 64) (n := 4) fun i hi => ?_
  refine (hpair i hi).trans (Eq.trans ?_ (part_join_self _ hi).symm)
  match i, hi with
  | 0, _ => rfl
  | 1, _ => rfl
  | 2, _ => rfl
  | 3, _ => rfl

/-- Keys, encryption and mixing, one after the other. -/
theorem block_gost3411Process (hash data : Vector puint32 8) :
    gost3411Block (ppCryptoHashGost3411Process hash data) =
      stepHash gostSbox (gost3411Block hash) (gost3411Block data) := by
  rw [ppCryptoHashGost3411Process, block_gost3411Psi61, block_gost3411Psi1, block_gost3411Psi12,
    block_gost3411Encrypt, stepHash]

/-- **The code computes the step hash function.** -/
theorem ppCryptoHashGost3411Process_eq (hash data : Vector puint32 8) :
    gost3411Block (ppCryptoHashGost3411Process hash data) =
      stepHash gostSbox (gost3411Block hash) (gost3411Block data) :=
  block_gost3411Process hash data

end Plibsys
