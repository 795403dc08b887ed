/-
  The block function of MD5 is the compression of RFC 1321.
-/
import Plibsys.Crypto.Md5
import Plibsys.Crypto.Rfc1321

namespace Plibsys

open Compression Rfc1321 UnitCircle

/-! ## The sine constants -/

/-- The constant of a line is the integer part of a sine. -/
def IsSine (i : ℕ) (t : puint32) : Prop :=
  ((one 64).times (2 ^ (2 * 64)) i).HasDigits (2 ^ (2 * 64)) 32 t.toNat

instance (i : ℕ) (t : puint32) : Decidable (IsSine i t) := by
  unfold IsSine
  infer_instance

/-- **The digits decide which sine it is.** -/
theorem IsSine.eq {i : ℕ} {t : puint32} (h : IsSine i t) : t = T i := by
  have hnear := (one_near 64).times (Nat.two_pow_pos _) i
  rw [mul_one] at hnear
  rw [T, hnear.digits (Nat.two_pow_pos _) h, BitVec.ofNat_toNat, BitVec.setWidth_eq]

/-! ## The functions -/

theorem md5Rotl_eq (val : puint32) {shift : ℕ} (h : shift < 32) : md5Rotl val shift = val.rotateLeft shift :=
  shift_or_eq_rotateLeft val h

theorem md5F_eq : md5F = F := by
  funext x y z
  rw [md5F, F, xor_eq_choose, or_eq_choose]

theorem md5G_eq : md5G = G := by
  funext x y z
  rw [md5G, md5F_eq, F, G, BitVec.and_comm z x, BitVec.and_comm (~~~z) y]

theorem function_first {i : ℕ} (h : i < 16) : md5F = function i := by
  rw [function, if_pos h, md5F_eq]

theorem function_second {i : ℕ} (hle : 16 ≤ i) (h : i < 32) : md5G = function i := by
  rw [function, if_neg (by omega), if_pos h, md5G_eq]

theorem function_third {i : ℕ} (hle : 32 ≤ i) (h : i < 48) : md5H = function i := by
  rw [function, if_neg (by omega), if_neg (by omega), if_pos h]
  rfl

theorem function_last {i : ℕ} (hle : 48 ≤ i) : md5I = function i := by
  rw [function, if_neg (by omega), if_neg (by omega), if_neg (by omega)]
  rfl

theorem shift_lt (i : ℕ) : Rfc1321.shift i < 32 := by
  have hmod : ∀ j < 4, #v[7, 12, 17, 22][j]! < 32 ∧ #v[5, 9, 14, 20][j]! < 32 ∧ #v[4, 11, 16, 23][j]! < 32 ∧
      #v[6, 10, 15, 21][j]! < 32 := by decide
  obtain ⟨h₀, h₁, h₂, h₃⟩ := hmod (i % 4) (Nat.mod_lt i (by decide))
  rw [Rfc1321.shift]
  split_ifs
  · exact h₀
  · exact h₁
  · exact h₂
  · exact h₃

/-! ## The steps -/

/-- The registers before the step `i`. -/
def AtStep (S : Vector puint32 4) (X : Vector puint32 16) (i : ℕ) (r : Registers) : Prop :=
  r = rounds (step X) ⟨S[0]!, S[1]!, S[2]!, S[3]!⟩ i

variable {S : Vector puint32 4} {X : Vector puint32 16} {f : puint32 → puint32 → puint32 → puint32}
  {a b c d : puint32} {i : ℕ}

/-- **One step.** -/
theorem AtStep.next {k : ℕ} {t : puint32} {s : ℕ} (h : AtStep S X i ⟨a, b, c, d⟩) (hf : f = function i)
    (hline : k = index i ∧ IsSine i t ∧ s = Rfc1321.shift i) :
    AtStep S X (i + 1) ⟨d, md5Round f X a b c d k t s, b, c⟩ := by
  obtain ⟨hk, ht, hs⟩ := hline
  have hsum : a + (function i b c d + X[index i]! + T i) = a + function i b c d + X[index i]! + T i := by
    rw [← BitVec.add_assoc, ← BitVec.add_assoc]
  rw [AtStep, rounds, ← h, step, md5Round, hf, hk, ht.eq, hs, md5Rotl_eq _ (shift_lt i), BitVec.add_comm _ b,
    hsum]

/-- The registers of the code. -/
def Md5Registers.registers (r : Md5Registers) : Registers := ⟨r.A, r.B, r.C, r.D⟩

/-- The arguments of the lines from `i` on are those of the steps. -/
def Lines (i s₀ s₁ s₂ s₃ : ℕ) (k₀ : ℕ) (t₀ : puint32) (k₁ : ℕ) (t₁ : puint32) (k₂ : ℕ) (t₂ : puint32)
    (k₃ : ℕ) (t₃ : puint32) : Prop :=
  (k₀ = index i ∧ IsSine i t₀ ∧ s₀ = Rfc1321.shift i) ∧
  (k₁ = index (i + 1) ∧ IsSine (i + 1) t₁ ∧ s₁ = Rfc1321.shift (i + 1)) ∧
  (k₂ = index (i + 2) ∧ IsSine (i + 2) t₂ ∧ s₂ = Rfc1321.shift (i + 2)) ∧
  (k₃ = index (i + 3) ∧ IsSine (i + 3) t₃ ∧ s₃ = Rfc1321.shift (i + 3))

instance (i s₀ s₁ s₂ s₃ : ℕ) (k₀ : ℕ) (t₀ : puint32) (k₁ : ℕ) (t₁ : puint32) (k₂ : ℕ) (t₂ : puint32)
    (k₃ : ℕ) (t₃ : puint32) : Decidable (Lines i s₀ s₁ s₂ s₃ k₀ t₀ k₁ t₁ k₂ t₂ k₃ t₃) := by
  unfold Lines
  infer_instance

/-- Four steps, after which the registers have their names back. -/
theorem AtStep.four {r : Md5Registers} {s₀ s₁ s₂ s₃ : ℕ} {k₀ k₁ k₂ k₃ : ℕ} {t₀ t₁ t₂ t₃ : puint32}
    (h : AtStep S X i r.registers) (hf : ∀ j < 4, f = function (i + j))
    (hlines : Lines i s₀ s₁ s₂ s₃ k₀ t₀ k₁ t₁ k₂ t₂ k₃ t₃) :
    AtStep S X (i + 4) (md5FourRounds f s₀ s₁ s₂ s₃ X r k₀ t₀ k₁ t₁ k₂ t₂ k₃ t₃).registers := by
  obtain ⟨h₀, h₁, h₂, h₃⟩ := hlines
  have hA := h.next (hf 0 (by decide)) h₀
  have hD := hA.next (hf 1 (by decide)) h₁
  have hC := hD.next (hf 2 (by decide)) h₂
  exact hC.next (hf 3 (by decide)) h₃

theorem AtStep.compress {r : Md5Registers} (h : AtStep S X 64 r.registers) :
    #v[S[0]! + r.A, S[1]! + r.B, S[2]! + r.C, S[3]! + r.D] = compress S X := by
  have hcompress : ∀ v, v = rounds (step X) ⟨S[0]!, S[1]!, S[2]!, S[3]!⟩ 64 →
      Rfc1321.compress S X = #v[v.A + S[0]!, v.B + S[1]!, v.C + S[2]!, v.D + S[3]!] := by
    intro v hv
    subst hv
    rfl
  rw [hcompress _ h]
  simp only [Md5Registers.registers, BitVec.add_comm]

/-! ## The rounds -/

section
variable {r : Md5Registers}

theorem AtStep.firstRound (h : AtStep S X 0 r.registers) : AtStep S X 16 (md5FirstRound X r).registers := by
  have hf : ∀ i ≤ 12, ∀ j < 4, md5F = function (i + j) := fun i hi j hj => function_first (by omega)
  refine (((h.four (hf 0 (by decide)) ?_).four (hf 4 (by decide)) ?_).four
    (hf 8 (by decide)) ?_).four (hf 12 (by decide)) ?_ <;> decide +kernel

theorem AtStep.secondRound (h : AtStep S X 16 r.registers) : AtStep S X 32 (md5SecondRound X r).registers := by
  have hf : ∀ i, 16 ≤ i → i ≤ 28 → ∀ j < 4, md5G = function (i + j) :=
    fun i hle hi j hj => function_second (by omega) (by omega)
  refine (((h.four (hf 16 (by decide) (by decide)) ?_).four (hf 20 (by decide) (by decide)) ?_).four
    (hf 24 (by decide) (by decide)) ?_).four (hf 28 (by decide) (by decide)) ?_ <;> decide +kernel

theorem AtStep.thirdRound (h : AtStep S X 32 r.registers) : AtStep S X 48 (md5ThirdRound X r).registers := by
  have hf : ∀ i, 32 ≤ i → i ≤ 44 → ∀ j < 4, md5H = function (i + j) :=
    fun i hle hi j hj => function_third (by omega) (by omega)
  refine (((h.four (hf 32 (by decide) (by decide)) ?_).four (hf 36 (by decide) (by decide)) ?_).four
    (hf 40 (by decide) (by decide)) ?_).four (hf 44 (by decide) (by decide)) ?_ <;> decide +kernel

theorem AtStep.lastRound (h : AtStep S X 48 r.registers) : AtStep S X 64 (md5LastRound X r).registers := by
  have hf : ∀ i, 48 ≤ i → ∀ j < 4, md5I = function (i + j) := fun i hle j hj => function_last (by omega)
  refine (((h.four (hf 48 (by decide)) ?_).four (hf 52 (by decide)) ?_).four
    (hf 56 (by decide)) ?_).four (hf 60 (by decide)) ?_ <;> decide +kernel

end

/-- The rounds of the code are those of the compression. -/
theorem md5Process_eq_compress (hash : Vector puint32 4) (data : Vector puint32 16) :
    ppCryptoHashMd5Process hash data = compress hash data := by
  have hstart : AtStep hash data 0 (Md5Registers.registers ⟨hash[0]!, hash[1]!, hash[2]!, hash[3]!⟩) := rfl
  exact hstart.firstRound.secondRound.thirdRound.lastRound.compress

/-- **The block function of MD5 is its compression function.** -/
theorem ppCryptoHashMd5Process_eq (hash : Vector puint32 4) (data : Vector puint32 16) :
    ppCryptoHashMd5Process hash data = compress hash data :=
  md5Process_eq_compress hash data

end Plibsys
