/-
  The block functions of SHA-2/256 and SHA-2/512 are the compressions of FIPS 180-4.

  Both run eight rounds at a time, after which the variables have their places back
  (`sha2EightRounds`); they differ in their words and in when they expand the schedule.
-/
import Mathlib.Analysis.SpecialFunctions.Pow.NthRootLemmas
import Plibsys.Crypto.Fips180
import Plibsys.Crypto.Sha256
import Plibsys.Crypto.Sha512

namespace Plibsys

open Compression Fips180

/-! ## The constants -/

theorem cubeRootBits_eq {w p : ℕ} {k : BitVec w} (c : ℕ) (hle : (c * 2 ^ w + k.toNat) ^ 3 ≤ p * 2 ^ (3 * w))
    (hlt : p * 2 ^ (3 * w) < (c * 2 ^ w + k.toNat + 1) ^ 3) : cubeRootBits w p = k := by
  rw [cubeRootBits, Nat.nthRoot_eq_of_le_of_lt hle hlt]
  apply BitVec.eq_of_toNat_eq
  rw [BitVec.toNat_ofNat, Nat.add_comm, Nat.add_mul_mod_self_right, Nat.mod_eq_of_lt k.isLt]

/-- `k` are the bits of the cube root of `p` behind some whole part. -/
def IsCubeRoot (w p : ℕ) (k : BitVec w) : Prop :=
  ∃ c < 8, (c * 2 ^ w + k.toNat) ^ 3 ≤ p * 2 ^ (3 * w) ∧ p * 2 ^ (3 * w) < (c * 2 ^ w + k.toNat + 1) ^ 3

instance (w p : ℕ) (k : BitVec w) : Decidable (IsCubeRoot w p k) := by
  unfold IsCubeRoot
  infer_instance

theorem IsCubeRoot.eq {w p : ℕ} {k : BitVec w} (h : IsCubeRoot w p k) : k = cubeRootBits w p := by
  obtain ⟨c, -, hle, hlt⟩ := h
  exact (cubeRootBits_eq c hle hlt).symm

theorem ppCryptoHashSha2_256K_eq {t : ℕ} (ht : t < 64) : ppCryptoHashSha2_256K[t]! = sha2K 32 t := by
  have htable : ∀ i < 64, IsCubeRoot 32 primes[i]! ppCryptoHashSha2_256K[i]! := by decide +kernel
  exact (htable t ht).eq

theorem ppCryptoHashSha2_512K_eq {t : ℕ} (ht : t < 80) : ppCryptoHashSha2_512K[t]! = sha2K 64 t := by
  have htable : ∀ i < 80, IsCubeRoot 64 primes[i]! ppCryptoHashSha2_512K[i]! := by decide +kernel
  exact (htable t ht).eq

/-! ## The rounds -/

section
variable {w : ℕ}

/-- `P` is the text of a round: it gives the new values of `d` and `h`. -/
def IsRound (alg : Sha2 w) (P : BitVec w → BitVec w → BitVec w → BitVec w → BitVec w → BitVec w → BitVec w →
    BitVec w →
    BitVec w → BitVec w → BitVec w × BitVec w) : Prop :=
  ∀ a b c d e f g h x K, P a b c d e f g h x K =
    let T1 := h + alg.bigSigma1 e + choose e f g + K + x
    (d + T1, T1 + (alg.bigSigma0 a + majority a b c))

/-- The working variables before the round `i`. -/
def AtSha2Round (alg : Sha2 w) (H : Vector (BitVec w) 8) (M : Vector (BitVec w) 16) (i : ℕ)
    (v : Sha2Vars w) : Prop :=
  v = rounds (sha2Step alg (sha2Word alg M)) ⟨H[0]!, H[1]!, H[2]!, H[3]!, H[4]!, H[5]!, H[6]!, H[7]!⟩ i

variable {alg : Sha2 w} {P : BitVec w → BitVec w → BitVec w → BitVec w → BitVec w → BitVec w → BitVec w →
    BitVec w →
    BitVec w → BitVec w → BitVec w × BitVec w} {H : Vector (BitVec w) 8} {M : Vector (BitVec w) 16} {i : ℕ}
  {a b c d e f g h x K : BitVec w}

/-- **One round**: the variables keep their places, and `d` and `h` take the roles of `e` and `a`. -/
theorem AtSha2Round.step (hP : IsRound alg P) (hat : AtSha2Round alg H M i ⟨a, b, c, d, e, f, g, h⟩)
    (hx : x = sha2Word alg M i) (hK : K = sha2K w i) :
    AtSha2Round alg H M (i + 1) ⟨(P a b c d e f g h x K).2, a, b, c, (P a b c d e f g h x K).1, e, f, g⟩ := by
  rw [AtSha2Round, rounds, ← hat, sha2Step, hP, hx, hK]

/-- Eight rounds with the words `x` and the constants `K`. -/
def sha2EightRounds (P : BitVec w → BitVec w → BitVec w → BitVec w → BitVec w → BitVec w → BitVec w → BitVec w →
    BitVec w → BitVec w → BitVec w × BitVec w) (x K : ℕ →
      BitVec w) (A : Vector (BitVec w) 8) : Vector (BitVec w) 8 :=
  let (A0, A1, A2, A3) := (A[0]!, A[1]!, A[2]!, A[3]!)
  let (A4, A5, A6, A7) := (A[4]!, A[5]!, A[6]!, A[7]!)
  let (A3, A7) := P A0 A1 A2 A3 A4 A5 A6 A7 (x 0) (K 0)
  let (A2, A6) := P A7 A0 A1 A2 A3 A4 A5 A6 (x 1) (K 1)
  let (A1, A5) := P A6 A7 A0 A1 A2 A3 A4 A5 (x 2) (K 2)
  let (A0, A4) := P A5 A6 A7 A0 A1 A2 A3 A4 (x 3) (K 3)
  let (A7, A3) := P A4 A5 A6 A7 A0 A1 A2 A3 (x 4) (K 4)
  let (A6, A2) := P A3 A4 A5 A6 A7 A0 A1 A2 (x 5) (K 5)
  let (A5, A1) := P A2 A3 A4 A5 A6 A7 A0 A1 (x 6) (K 6)
  let (A4, A0) := P A1 A2 A3 A4 A5 A6 A7 A0 (x 7) (K 7)
  #v[A0, A1, A2, A3, A4, A5, A6, A7]

/-- The variables of the code. -/
def sha2Vars (A : Vector (BitVec w) 8) : Sha2Vars w := ⟨A[0]!, A[1]!, A[2]!, A[3]!, A[4]!, A[5]!, A[6]!, A[7]!⟩

/-- **Eight rounds**, after which the variables have their places back. -/
theorem AtSha2Round.eight {A : Vector (BitVec w) 8} {x K : ℕ → BitVec w} (hP : IsRound alg P)
    (hat : AtSha2Round alg H M i (sha2Vars A)) (hx : ∀ j < 8, x j = sha2Word alg M (i + j))
    (hK : ∀ j < 8, K j = sha2K w (i + j)) : AtSha2Round alg H M (i + 8) (sha2Vars (sha2EightRounds P x K A)) := by
  have h₁ := hat.step hP (hx 0 (by decide)) (hK 0 (by decide))
  have h₂ := h₁.step hP (hx 1 (by decide)) (hK 1 (by decide))
  have h₃ := h₂.step hP (hx 2 (by decide)) (hK 2 (by decide))
  have h₄ := h₃.step hP (hx 3 (by decide)) (hK 3 (by decide))
  have h₅ := h₄.step hP (hx 4 (by decide)) (hK 4 (by decide))
  have h₆ := h₅.step hP (hx 5 (by decide)) (hK 5 (by decide))
  have h₇ := h₆.step hP (hx 6 (by decide)) (hK 6 (by decide))
  exact h₇.step hP (hx 7 (by decide)) (hK 7 (by decide))

end

/-! ## The macros -/

theorem sha2_256Shr_eq (val : puint32) (shift : ℕ) : sha2_256Shr val shift = val >>> shift := by
  rw [sha2_256Shr, show (0xFFFFFFFF : puint32) = BitVec.allOnes 32 from rfl, BitVec.and_allOnes]

theorem sha2_256Rotr_eq (val : puint32) {shift : ℕ} (h : shift < 32) :
    sha2_256Rotr val shift = val.rotateRight shift := by
  rw [sha2_256Rotr, sha2_256Shr_eq, shift_or_eq_rotateRight val h]

theorem sha2_512Rotr_eq (val : puint64) {shift : ℕ} (h : shift < 64) :
    sha2_512Rotr val shift = val.rotateRight shift :=
  shift_or_eq_rotateRight val h

theorem sha2_256S0_eq (x : puint32) : sha2_256S0 x = sha256.smallSigma0 x := by
  rw [sha2_256S0, sha2_256Rotr_eq x (by decide), sha2_256Rotr_eq x (by decide), sha2_256Shr_eq]
  rfl

theorem sha2_256S1_eq (x : puint32) : sha2_256S1 x = sha256.smallSigma1 x := by
  rw [sha2_256S1, sha2_256Rotr_eq x (by decide), sha2_256Rotr_eq x (by decide), sha2_256Shr_eq]
  rfl

theorem sha2_512S0_eq (x : puint64) : sha2_512S0 x = sha512.smallSigma0 x := by
  rw [sha2_512S0, sha2_512Rotr_eq x (by decide), sha2_512Rotr_eq x (by decide)]
  rfl

theorem sha2_512S1_eq (x : puint64) : sha2_512S1 x = sha512.smallSigma1 x := by
  rw [sha2_512S1, sha2_512Rotr_eq x (by decide), sha2_512Rotr_eq x (by decide)]
  rfl

theorem sha2_256P_isRound : IsRound sha256 sha2_256P := by
  intro a b c d e f g h x K
  rw [sha2_256P, sha2_256S3, sha2_256S2, sha2_256F1, sha2_256F0, xor_eq_choose, and_or_eq_majority,
    sha2_256Rotr_eq e (by decide), sha2_256Rotr_eq e (by decide), sha2_256Rotr_eq e (by decide),
    sha2_256Rotr_eq a (by decide), sha2_256Rotr_eq a (by decide), sha2_256Rotr_eq a (by decide)]
  rfl

theorem sha2_512P_isRound : IsRound sha512 sha2_512P := by
  intro a b c d e f g h x K
  rw [sha2_512P, sha2_512S3, sha2_512S2, sha2_512F1, sha2_512F0, xor_eq_choose, and_or_eq_majority,
    sha2_512Rotr_eq e (by decide), sha2_512Rotr_eq e (by decide), sha2_512Rotr_eq e (by decide),
    sha2_512Rotr_eq a (by decide), sha2_512Rotr_eq a (by decide), sha2_512Rotr_eq a (by decide)]
  rfl

/-! ## The schedules -/

section
variable {w : ℕ} {alg : Sha2 w}

theorem sha2Word_of_le {M : Vector (BitVec w) 16} {t : ℕ} (h : 16 ≤ t) : sha2Word alg M t =
    alg.smallSigma1 (sha2Word alg M (t - 2)) + sha2Word alg M (t - 7) + alg.smallSigma0 (sha2Word alg M (t - 15)) +
      sha2Word alg M (t - 16) := word_of_le h

/-- The block is copied into the table. -/
theorem filled_block {N : ℕ} (hN : 16 ≤ N) (data : Vector (BitVec w) 16) :
    Filled (sha2Word alg data) (Vector.ofFn fun i : Fin N => data.getD i 0) 0 := by
  intro t ht
  have hlt : t < 16 := by omega
  have hbound : t < N := by omega
  rw [getElem!_pos _ t hbound, Vector.getElem_ofFn, sha2Word, word_of_lt hlt]
  rw [Vector.getD, Array.getD, dif_pos (data.size_toArray.symm ▸ hlt)]
  rfl

/-- A word of the schedule, from the table. -/
theorem filled_word {N : ℕ} {M : Vector (BitVec w) 16} {W : Vector (BitVec w) N} {i : ℕ}
    (h : Filled (sha2Word alg M) W i)
    (hi : 16 ≤ i) : alg.smallSigma1 W[i - 2]! + W[i - 7]! + alg.smallSigma0 W[i - 15]! + W[i - 16]! =
    sha2Word alg M i := by
  rw [h.get (t := i - 2) (by omega), h.get (t := i - 7) (by omega), h.get (t := i - 15) (by omega),
    h.get (t := i - 16) (by omega), sha2Word_of_le hi]

end

theorem sha2_256R_filled {M : Vector puint32 16} {W : Vector puint32 64} {i : ℕ}
    (h : Filled (sha2Word sha256 M) W i)
    (hi : 16 ≤ i) (hN : i < 64) : Filled (sha2Word sha256 M) (sha2_256R W i) (i + 1) := by
  rw [sha2_256R, sha2_256S0_eq, sha2_256S1_eq, filled_word h hi]
  exact h.push hi hN

theorem sha2_512W_filled {M : Vector puint64 16} {W : Vector puint64 80} {i : ℕ}
    (h : Filled (sha2Word sha512 M) W i)
    (hi : 16 ≤ i) (hN : i < 80) : Filled (sha2Word sha512 M) (sha2_512W W i) (i + 1) := by
  rw [sha2_512W, sha2_512S0_eq, sha2_512S1_eq, filled_word h hi]
  exact h.push hi hN

/-! ## The loops -/

section
variable {w : ℕ} {alg : Sha2 w} {H : Vector (BitVec w) 8} {M : Vector (BitVec w) 16}

/-- The feed-forward, after all rounds. -/
theorem AtSha2Round.compress {A : Vector (BitVec w) 8} {n : ℕ} (h : AtSha2Round alg H M n (sha2Vars A))
    (hn : n = alg.rounds) :
    Vector.zipWith (· + ·) H A = sha2Compress alg H M := by
  subst hn
  rw [sha2Compress, ← h]
  apply Vector.ext
  intro i hi
  rw [Vector.getElem_zipWith, BitVec.add_comm]
  match i with
  | 0 | 1 | 2 | 3 | 4 | 5 | 6 | 7 => rfl

end

/-! ## SHA-2/512 -/

theorem sha2_512EightRounds_eq (W : Vector puint64 80) (A : Vector puint64 8) (i : ℕ) : sha2_512EightRounds W A i =
    sha2EightRounds sha2_512P (fun j => W[i + j]!) (fun j => ppCryptoHashSha2_512K[i + j]!) A := rfl

/-- The loop over the variables. -/
theorem atSha2Round_512 {H : Vector puint64 8} {M : Vector puint64 16} {W : Vector puint64 80}
    (hW : Filled (sha2Word sha512 M) W 80) (n : ℕ) (hn : n ≤ 10) : AtSha2Round sha512 H M (8 * n)
      (sha2Vars ((List.range n).foldl (fun A j => sha2_512EightRounds W A (8 * j)) H)) := by
  induction n with
  | zero => rfl
  | succ n ih =>
    rw [List.range_succ, List.foldl_append, List.foldl_cons, List.foldl_nil, sha2_512EightRounds_eq]
    refine (ih (by omega)).eight sha2_512P_isRound (fun j hj => ?_) (fun j hj => ?_)
    · exact hW.get (by omega)
    · exact ppCryptoHashSha2_512K_eq (by omega)

/-- The loop over the schedule. -/
theorem filled_512 {M : Vector puint64 16} {W : Vector puint64 80} (h : Filled (sha2Word sha512 M) W 16) (n : ℕ)
    (hn : n ≤ 64) : Filled (sha2Word sha512 M) ((List.range' 16 n).foldl sha2_512W W) (16 + n) := by
  induction n with
  | zero => exact h
  | succ n ih =>
    rw [List.range'_1_concat, List.foldl_append, List.foldl_cons, List.foldl_nil]
    exact sha2_512W_filled (ih (by omega)) (by omega) (by omega)

theorem ppCryptoHashSha2_512Process_eq (hash : Vector puint64 8) (data : Vector puint64 16) :
    ppCryptoHashSha2_512Process hash data = sha2Compress sha512 hash data := by
  have hblock : Filled (sha2Word sha512 data) (Vector.ofFn fun i : Fin 80 => data.getD i 0) 16 :=
    fun t ht => filled_block (by decide) data t (by omega)
  have hW := filled_512 hblock 64 (by decide)
  exact (atSha2Round_512 hW 10 (by decide)).compress rfl

/-! ## SHA-2/256 -/

/-- The words of eight rounds, each read after the schedule has been expanded to it. -/
theorem sha2_256EightRounds_eq (schedule : Vector puint32 64 → ℕ → Vector puint32 64) (s : Sha2_256State) (i : ℕ) :
    sha2_256EightRounds schedule s i =
      let W := rounds (fun j V => schedule V (i + j)) s.W
      ⟨sha2EightRounds sha2_256P (fun j => (W (j + 1))[i + j]!) (fun j => ppCryptoHashSha2_256K[i + j]!) s.A,
        W 8⟩ := rfl

/-- Before the round `i`. -/
structure AtSha256Round (H : Vector puint32 8) (M : Vector puint32 16) (i : ℕ) (s : Sha2_256State) : Prop where
  vars : AtSha2Round sha256 H M i (sha2Vars s.A)
  filled : Filled (sha2Word sha256 M) s.W i

theorem AtSha256Round.eight {H : Vector puint32 8} {M : Vector puint32 16} {i : ℕ} {s : Sha2_256State}
    {schedule : Vector puint32 64 → ℕ → Vector puint32 64} (h : AtSha256Round H M i s) (hi : i + 8 ≤ 64)
    (hschedule : ∀ W j, i ≤ j → j < i + 8 → Filled (sha2Word sha256 M) W j →
      Filled (sha2Word sha256 M) (schedule W j) (j + 1)) :
    AtSha256Round H M (i + 8) (sha2_256EightRounds schedule s i) := by
  have hsome : ∀ n ≤ 8, Filled (sha2Word sha256 M) (rounds (fun j V => schedule V (i + j)) s.W n) (i + n) := by
    intro n hn
    exact h.filled.steps fun W j hle hlt => hschedule W j hle (by omega)
  rw [sha2_256EightRounds_eq]
  refine ⟨h.vars.eight sha2_256P_isRound (fun j hj => ?_) (fun j hj => ?_), hsome 8 (Nat.le_refl 8)⟩
  · exact (hsome (j + 1) (by omega)).get (by omega)
  · exact ppCryptoHashSha2_256K_eq (by omega)

/-- The first rounds take the words of the block. -/
theorem AtSha256Round.first {H : Vector puint32 8} {M : Vector puint32 16} {i : ℕ} {s : Sha2_256State}
    (h : AtSha256Round H M i s) (hi : i + 8 ≤ 16) :
    AtSha256Round H M (i + 8) (sha2_256EightRounds (fun W _ => W) s i) :=
  h.eight (by omega) fun _ _ _ hlt hfilled => hfilled.skip (by omega)

/-- The other rounds expand the schedule. -/
theorem AtSha256Round.expanding {H : Vector puint32 8} {M : Vector puint32 16} {i : ℕ} {s : Sha2_256State}
    (h : AtSha256Round H M i s) (hge : 16 ≤ i) (hle : i + 8 ≤ 64) :
    AtSha256Round H M (i + 8) (sha2_256EightRounds sha2_256R s i) :=
  h.eight hle fun _ _ hj hlt hfilled => sha2_256R_filled hfilled (by omega) (by omega)

theorem ppCryptoHashSha2_256Process_eq (hash : Vector puint32 8) (data : Vector puint32 16) :
    ppCryptoHashSha2_256Process hash data = sha2Compress sha256 hash data := by
  have hstart : AtSha256Round hash data 0 ⟨hash, Vector.ofFn fun i => data.getD i 0⟩ :=
    ⟨rfl, filled_block (by decide) data⟩
  have h₈ : AtSha256Round hash data 8 _ := hstart.first (by decide)
  have h₁₆ : AtSha256Round hash data 16 _ := h₈.first (by decide)
  have h₂₄ : AtSha256Round hash data 24 _ := h₁₆.expanding (by decide) (by decide)
  have h₃₂ : AtSha256Round hash data 32 _ := h₂₄.expanding (by decide) (by decide)
  have h₄₀ : AtSha256Round hash data 40 _ := h₃₂.expanding (by decide) (by decide)
  have h₄₈ : AtSha256Round hash data 48 _ := h₄₀.expanding (by decide) (by decide)
  have h₅₆ : AtSha256Round hash data 56 _ := h₄₈.expanding (by decide) (by decide)
  have h₆₄ : AtSha256Round hash data 64 _ := h₅₆.expanding (by decide) (by decide)
  rw [ppCryptoHashSha2_256Process]
  simp only [List.foldl_cons, List.foldl_nil]
  exact h₆₄.vars.compress rfl

/-- **The block functions of SHA-2 are its compression functions.** -/
theorem sha2Process_eq_sha2Compress :
    (∀ hash data, ppCryptoHashSha2_256Process hash data = sha2Compress sha256 hash data) ∧
    (∀ hash data, ppCryptoHashSha2_512Process hash data = sha2Compress sha512 hash data) :=
  ⟨ppCryptoHashSha2_256Process_eq, ppCryptoHashSha2_512Process_eq⟩

end Plibsys
