/-
  The block function of SHA-1 is the compression of FIPS 180-4.

  After each of the 80 rounds the registers, in the order in which the next round names them, are
  the working variables, and the circular schedule holds the last 16 words (`AtRound`).
-/
import Plibsys.Crypto.Fips180
import Plibsys.Crypto.Sha1

namespace Plibsys

open Compression Fips180

/-! ## The macros -/

theorem sha1Rotl_eq (val : puint32) {shift : ℕ} (h : shift < 32) : sha1Rotl val shift = val.rotateLeft shift :=
  shift_or_eq_rotateLeft val h

theorem sha1F1_eq (x y z : puint32) : sha1F1 x y z = choose x y z := or_eq_choose x y z

theorem sha1F3_eq (x y z : puint32) : sha1F3 x y z = majority x y z := or_eq_majority x y z

/-- `P_SHA1_W` stores the next word of the schedule. -/
theorem sha1Schedule_window {M W : Vector puint32 16} {i : ℕ} (h : Window (sha1Word M) W i) :
    (sha1Schedule W i)[i % 16]! = sha1Word M i ∧ Window (sha1Word M) (sha1Schedule W i) (i + 1) := by
  by_cases hi : i < 16
  · rw [sha1Schedule, if_pos hi]
    exact h.skip hi
  · have hle : 16 ≤ i := Nat.le_of_not_lt hi
    have hword : sha1W W i = W.set! (i % 16) (sha1Word M i) := by
      rw [sha1W, h (i - 3) (by omega) (by omega), h (i - 8) (by omega) (by omega),
        h (i - 14) (by omega) (by omega),
        h (i - 16) (by omega) (by omega), sha1Rotl_eq _ (by decide), ← sha1Word_of_le hle]
    rw [sha1Schedule, if_neg hi, hword]
    exact h.push hle

/-! ## The rounds -/

/-- Before the round `i`: the working variables, and the schedule. -/
structure AtRound (H : Vector puint32 5) (M : Vector puint32 16) (i : ℕ) (v : Sha1Vars)
    (W : Vector puint32 16) : Prop where
  vars : v = rounds (sha1Step (sha1Word M)) ⟨H[0]!, H[1]!, H[2]!, H[3]!, H[4]!⟩ i
  window : Window (sha1Word M) W i

variable {H : Vector puint32 5} {M W : Vector puint32 16} {f : puint32 → puint32 → puint32 → puint32} {k : puint32}
  {a b c d e : puint32} {i : ℕ}

/-- **One round.** -/
theorem AtRound.step (h : AtRound H M i ⟨a, b, c, d, e⟩ W) (hf : f = sha1F i) (hk : k = sha1K i) :
    AtRound H M (i + 1) ⟨(sha1Round f k a b c d e (sha1Schedule W i)[i % 16]!).1, a,
      (sha1Round f k a b c d e (sha1Schedule W i)[i % 16]!).2, c, d⟩ (sha1Schedule W i) := by
  obtain ⟨hword, hwindow⟩ := sha1Schedule_window h.window
  refine ⟨?_, hwindow⟩
  have hsum : e + (sha1Rotl a 5 + f b c d + k + sha1Word M i) =
      a.rotateLeft 5 + sha1F i b c d + e + sha1K i + sha1Word M i := by
    rw [sha1Rotl_eq a (by decide), hf, hk]
    ac_rfl
  rw [rounds, ← h.vars, sha1Step, hword, sha1Round, hsum, sha1Rotl_eq b (by decide)]

/-- The registers of the code, as the working variables. -/
def Sha1State.vars (s : Sha1State) : Sha1Vars := ⟨s.A, s.B, s.C, s.D, s.E⟩

/-- The rounds from `i` on have the function `f` and the constant `k`. -/
def SameGroup (f : puint32 → puint32 → puint32 → puint32) (k : puint32) (i n : ℕ) : Prop :=
  ∀ j < n, f = sha1F (i + j) ∧ k = sha1K (i + j)

/-- Five rounds, after which the registers have their names back. -/
theorem AtRound.five {s : Sha1State} (h : AtRound H M i s.vars s.W) (hgroup : SameGroup f k i 5) :
    AtRound H M (i + 5) (sha1FiveRounds f k s i).vars (sha1FiveRounds f k s i).W := by
  obtain ⟨A, B, C, D, E, W⟩ := s
  have h₁ := h.step (hgroup 0 (by decide)).1 (hgroup 0 (by decide)).2
  have h₂ := h₁.step (hgroup 1 (by decide)).1 (hgroup 1 (by decide)).2
  have h₃ := h₂.step (hgroup 2 (by decide)).1 (hgroup 2 (by decide)).2
  have h₄ := h₃.step (hgroup 3 (by decide)).1 (hgroup 3 (by decide)).2
  exact h₄.step (hgroup 4 (by decide)).1 (hgroup 4 (by decide)).2

theorem SameGroup.drop {n : ℕ} (h : SameGroup f k i n) (m : ℕ) (hle : m + 5 ≤ n) : SameGroup f k (i + m) 5 := by
  intro j hj
  rw [Nat.add_assoc]
  exact h (m + j) (by omega)

/-- The rounds of a group. -/
def sha1TwentyRounds (f : puint32 → puint32 → puint32 → puint32) (k : puint32) (s : Sha1State) (i : ℕ) :
    Sha1State :=
  let s := sha1FiveRounds f k s i
  let s := sha1FiveRounds f k s (i + 5)
  let s := sha1FiveRounds f k s (i + 10)
  sha1FiveRounds f k s (i + 15)

theorem ppCryptoHashSha1Process_rounds (hash : Vector puint32 5) (data : Vector puint32 16) :
    ppCryptoHashSha1Process hash data =
      let s := sha1TwentyRounds sha1F1 0x5A827999 ⟨hash[0]!, hash[1]!, hash[2]!, hash[3]!, hash[4]!, data⟩ 0
      let s := sha1TwentyRounds sha1F2 0x6ED9EBA1 s 20
      let s := sha1TwentyRounds sha1F3 0x8F1BBCDC s 40
      let s := sha1TwentyRounds sha1F2 0xCA62C1D6 s 60
      #v[hash[0]! + s.A, hash[1]! + s.B, hash[2]! + s.C, hash[3]! + s.D, hash[4]! + s.E] := rfl

theorem AtRound.twenty {s : Sha1State} (h : AtRound H M i s.vars s.W) (hgroup : SameGroup f k i 20) :
    AtRound H M (i + 20) (sha1TwentyRounds f k s i).vars (sha1TwentyRounds f k s i).W := by
  have h₅ := h.five (hgroup.drop 0 (by decide))
  have h₁₀ := h₅.five (hgroup.drop 5 (by decide))
  have h₁₅ := h₁₀.five (hgroup.drop 10 (by decide))
  exact h₁₅.five (hgroup.drop 15 (by decide))

/-! ## The groups -/

theorem sameGroup_choose : SameGroup sha1F1 0x5A827999 0 20 := by
  intro j hj
  have hlt : 0 + j < 20 := by omega
  rw [sha1F, sha1K, if_pos hlt, if_pos hlt]
  exact ⟨funext fun x => funext fun y => funext fun z => sha1F1_eq x y z, rfl⟩

theorem sameGroup_parity : SameGroup sha1F2 0x6ED9EBA1 20 20 := by
  intro j hj
  have hnot : ¬ 20 + j < 20 := by omega
  have hlt : 20 + j < 40 := by omega
  rw [sha1F, sha1K, if_neg hnot, if_neg hnot, if_pos hlt, if_pos hlt]
  exact ⟨rfl, rfl⟩

theorem sameGroup_majority : SameGroup sha1F3 0x8F1BBCDC 40 20 := by
  intro j hj
  have hnot : ¬ 40 + j < 20 := by omega
  have hnot' : ¬ 40 + j < 40 := by omega
  have hlt : 40 + j < 60 := by omega
  rw [sha1F, sha1K, if_neg hnot, if_neg hnot, if_neg hnot', if_neg hnot', if_pos hlt, if_pos hlt]
  exact ⟨funext fun x => funext fun y => funext fun z => sha1F3_eq x y z, rfl⟩

theorem sameGroup_last : SameGroup sha1F2 0xCA62C1D6 60 20 := by
  intro j hj
  have hnot : ¬ 60 + j < 20 := by omega
  have hnot' : ¬ 60 + j < 40 := by omega
  have hnot'' : ¬ 60 + j < 60 := by omega
  rw [sha1F, sha1K, if_neg hnot, if_neg hnot, if_neg hnot', if_neg hnot', if_neg hnot'', if_neg hnot'']
  exact ⟨rfl, rfl⟩

theorem sha1Compress_of_rounds {v : Sha1Vars}
    (h : v = rounds (sha1Step (sha1Word M)) ⟨H[0]!, H[1]!, H[2]!, H[3]!, H[4]!⟩ 80) :
    sha1Compress H M = #v[v.a + H[0]!, v.b + H[1]!, v.c + H[2]!, v.d + H[3]!, v.e + H[4]!] := by
  subst h
  rfl

theorem AtRound.compress {s : Sha1State} (h : AtRound H M 80 s.vars s.W) :
    #v[H[0]! + s.A, H[1]! + s.B, H[2]! + s.C, H[3]! + s.D, H[4]! + s.E] = sha1Compress H M := by
  rw [sha1Compress_of_rounds h.vars]
  simp only [Sha1State.vars, BitVec.add_comm]

/-- The rounds of the code are those of the compression function. -/
theorem sha1Process_eq_compress (hash : Vector puint32 5) (data : Vector puint32 16) :
    ppCryptoHashSha1Process hash data = sha1Compress hash data := by
  have hstart : AtRound hash data 0 (Sha1State.mk hash[0]! hash[1]! hash[2]! hash[3]! hash[4]! data).vars data :=
    ⟨rfl, Window.start fun t ht => (sha1Word_of_lt ht).symm⟩
  have h₂₀ : AtRound hash data 20 _ _ := hstart.twenty sameGroup_choose
  have h₄₀ : AtRound hash data 40 _ _ := h₂₀.twenty sameGroup_parity
  have h₆₀ : AtRound hash data 60 _ _ := h₄₀.twenty sameGroup_majority
  have h₈₀ : AtRound hash data 80 _ _ := h₆₀.twenty sameGroup_last
  rw [ppCryptoHashSha1Process_rounds]
  exact h₈₀.compress

/-- **The block function of SHA-1 is its compression function.** -/
theorem ppCryptoHashSha1Process_eq (hash : Vector puint32 5) (data : Vector puint32 16) :
    ppCryptoHashSha1Process hash data = sha1Compress hash data :=
  sha1Process_eq_compress hash data

end Plibsys
