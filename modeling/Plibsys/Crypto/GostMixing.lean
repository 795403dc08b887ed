/-
  The step hash function of GOST R 34.11-94: the code computes the function of the standard.

  The formulas of the three mixing steps are tables of terms (`Term`); what a term puts into a half
  of a word is a mask over the 16 halves, and so is what the shift register puts there: both are
  linear, and the masks agree.
-/
import Mathlib.Tactic.IntervalCases
import Plibsys.Crypto.Gost3411
import Plibsys.Crypto.Gost94

namespace Plibsys

open BitParts Compression Gost94

/-! ## The shift register is linear -/

section
variable {w : ℕ}

/-- The register of the masks of the cells. -/
def cellMasks : Vector (BitVec 16) 16 := Vector.ofFn fun i => BitVec.twoPow 16 i

theorem shiftRegister_select (Y : Vector (BitVec w) 16) (masks : Vector (BitVec 16) 16) :
    shiftRegister (masks.map (select Y)) = (shiftRegister masks).map (select Y) := by
  apply Vector.ext
  intro i hi
  simp only [shiftRegister, Vector.getElem_map, ← select_xor]
  interval_cases i <;> rfl

theorem map_cellMasks (Y : Vector (BitVec w) 16) : cellMasks.map (select Y) = Y := by
  apply Vector.ext
  intro i hi
  rw [Vector.getElem_map, cellMasks, Vector.getElem_ofFn, select_twoPow Y ⟨i, hi⟩]
  rfl

/-- **`n` rounds are `n` rounds on the masks.** -/
theorem iterate_shiftRegister (Y : Vector (BitVec w) 16) (n : ℕ) :
    shiftRegister^[n] Y = (shiftRegister^[n] cellMasks).map (select Y) := by
  induction n with
  | zero => exact (map_cellMasks Y).symm
  | succ n ih => rw [Function.iterate_succ_apply', Function.iterate_succ_apply', ih, shiftRegister_select]

end

/-! ## The halves of the words -/

/-- The hash values and blocks of the code, as strings. -/
def gost3411Block (v : Vector puint32 8) : Block := join v

/-- The cells of the register. -/
def halves (Y : Block) : Vector (BitVec 16) 16 := Vector.ofFn fun i => part 16 i Y

theorem halves_psi (Y : Block) : halves (psi Y) = shiftRegister (halves Y) := by
  apply Vector.ext
  intro i hi
  rw [halves, Vector.getElem_ofFn, psi]
  exact part_join_self _ hi

theorem halves_iterate_psi (Y : Block) (n : ℕ) : halves (psi^[n] Y) = shiftRegister^[n] (halves Y) := by
  induction n with
  | zero => rfl
  | succ n ih => rw [Function.iterate_succ_apply', Function.iterate_succ_apply', halves_psi, ih]

theorem halves_block (v : Vector puint32 8) {i : ℕ} (hi : i < 16) :
    (halves (gost3411Block v))[i] = part 16 (i % 2) (v[i / 2]) := by
  rw [halves, Vector.getElem_ofFn]
  exact part_join (u := 16) (k := 2) v (by decide) (by omega)

/-- Strings with the same halves are equal. -/
theorem eq_of_halves {X Y : Block} (h : ∀ i, (hi : i < 16) → (halves X)[i] = (halves Y)[i]) : X = Y := by
  refine ext_part (w := 16) (n := 16) fun i hi => ?_
  have hhalf := h i hi
  rw [halves, halves, Vector.getElem_ofFn, Vector.getElem_ofFn] at hhalf
  exact hhalf

/-! ## The formulas -/

/-- A term of the formulas: a word, one of its halves in place, or one of its halves moved. -/
inductive Term where
  | word (i : ℕ)
  /-- `& 0x0000FFFF` -/
  | low (i : ℕ)
  /-- `& 0xFFFF0000` -/
  | high (i : ℕ)
  /-- `<< 16` -/
  | up (i : ℕ)
  /-- `>> 16` -/
  | down (i : ℕ)

namespace Term

def eval (v : Vector puint32 8) : Term → puint32
  | word i => v[i]!
  | low i => v[i]! &&& 0x0000FFFF
  | high i => v[i]! &&& 0xFFFF0000
  | up i => v[i]! <<< 16
  | down i => v[i]! >>> 16

/-- The mask of the low and of the high half of the term. -/
def mask : Term → Bool → BitVec 16
  | word i, b => BitVec.twoPow 16 (2 * i + b.toNat)
  | low i, b => if b then 0 else BitVec.twoPow 16 (2 * i)
  | high i, b => if b then BitVec.twoPow 16 (2 * i + 1) else 0
  | up i, b => if b then BitVec.twoPow 16 (2 * i) else 0
  | down i, b => if b then 0 else BitVec.twoPow 16 (2 * i + 1)

end Term

/-- The terms of the 12 rounds. -/
def psi12Terms : Vector (List Term) 8 :=
  #v[
    [.word 6],
    [.word 7],
    [.low 0, .down 0, .up 0, .low 1, .down 1, .up 2, .high 7, .up 6, .down 7, .word 6],
    [.low 0, .up 0, .up 2, .low 1, .up 1, .down 1, .low 7, .down 2, .up 3, .up 6, .down 6, .up 7, .down 7,
      .word 6],
    [.high 0, .up 0, .down 0, .high 1, .down 1, .up 2, .low 7, .up 3, .down 3, .up 4, .up 6, .down 6, .down 2,
      .up 7, .down 7],
    [.high 0, .down 0, .up 0, .low 1, .down 7, .down 2, .high 7, .down 3, .up 4, .down 4, .up 5, .up 6,
      .down 6, .up 3, .up 7, .word 2],
    [.down 4, .down 1, .up 2, .up 7, .down 3, .up 4, .up 5, .down 5, .up 6, .down 6, .word 6, .word 0, .word 3],
    [.high 0, .up 0, .up 1, .low 1, .down 2, .up 3, .low 7, .down 4, .up 5, .down 5, .down 6, .up 7, .down 7,
      .word 4]]

/-- The terms of the single round. -/
def psi1Terms : Vector (List Term) 8 :=
  #v[
    [.up 1, .down 0],
    [.up 2, .down 1],
    [.up 3, .down 2],
    [.up 4, .down 3],
    [.up 5, .down 4],
    [.up 6, .down 5],
    [.up 7, .down 6],
    [.down 7, .up 0, .high 1, .up 1, .high 7, .up 6, .high 0]]

/-- The terms of the 61 rounds. -/
def psi61Terms : Vector (List Term) 8 :=
  #v[
    [.high 0, .up 0, .down 0, .high 1, .down 1, .up 2, .low 7, .down 3, .up 4, .down 5, .down 6, .up 7,
      .down 7, .word 5],
    [.high 0, .up 0, .down 0, .low 1, .down 2, .up 3, .high 7, .down 4, .up 5, .up 6, .down 7, .word 6, .word 2],
    [.low 0, .up 0, .up 1, .low 7, .down 1, .up 2, .high 1, .down 3, .up 4, .down 5, .down 6, .up 7, .down 7,
      .word 3, .word 6],
    [.high 0, .up 0, .down 0, .high 1, .down 1, .up 2, .low 7, .down 2, .up 3, .down 4, .up 5, .up 6, .down 7,
      .word 2, .word 4],
    [.down 0, .up 1, .down 2, .up 3, .down 3, .up 4, .down 5, .up 6, .down 6, .up 7, .word 1, .word 2, .word 3,
      .word 5],
    [.high 0, .up 0, .up 1, .high 1, .down 1, .up 2, .high 7, .down 3, .up 4, .down 4, .up 5, .up 6, .down 6,
      .up 7, .down 7, .word 2, .word 3, .word 4, .word 6],
    [.down 2, .up 3, .down 4, .up 5, .down 5, .up 6, .down 6, .up 7, .word 7, .word 0, .word 2, .word 3,
      .word 4, .word 5, .word 6],
    [.down 0, .up 1, .down 1, .up 2, .down 3, .up 4, .down 5, .up 6, .down 6, .up 7, .word 7, .word 0, .word 3,
      .word 4, .word 5]]

/-- A formula: the terms are added to `x`. -/
def addTerms (v : Vector puint32 8) (x : puint32) (terms : List Term) : puint32 :=
  terms.foldl (fun sum t => sum ^^^ t.eval v) x

theorem gost3411Psi12_terms (data S : Vector puint32 8) :
    gost3411Psi12 data S = Vector.ofFn fun i => addTerms S (data.get i) (psi12Terms.get i) := rfl

theorem gost3411Psi1_terms (hash U : Vector puint32 8) :
    gost3411Psi1 hash U = Vector.ofFn fun i => addTerms U (hash.get i) (psi1Terms.get i) := rfl

/-- A formula that starts with its first term. -/
def sumTerms (v : Vector puint32 8) : List Term → puint32
  | [] => 0
  | t :: terms => addTerms v (t.eval v) terms

theorem sumTerms_eq (v : Vector puint32 8) (terms : List Term) : sumTerms v terms = addTerms v 0 terms := by
  cases terms with
  | nil => rfl
  | cons t terms =>
    have hzero : 0 ^^^ t.eval v = t.eval v := BitVec.zero_xor
    rw [sumTerms, addTerms, addTerms, List.foldl_cons, hzero]

theorem gost3411Psi61_terms (V : Vector puint32 8) :
    gost3411Psi61 V = Vector.ofFn fun i => sumTerms V (psi61Terms.get i) := rfl

/-- The mask of a half of a sum. -/
def termsMask (terms : List Term) (b : Bool) : BitVec 16 := terms.foldr (fun t m => t.mask b ^^^ m) 0

theorem select_half (v : Vector puint32 8) (i : ℕ) (b : Bool) :
    select (halves (gost3411Block v)) (BitVec.twoPow 16 (2 * i + b.toNat)) = part 16 b.toNat v[i]! := by
  have hb := b.toNat_lt
  by_cases hi : i < 8
  · have hlt : 2 * i + b.toNat < 16 := by omega
    have hdiv : (2 * i + b.toNat) / 2 = i := by omega
    have hmod : (2 * i + b.toNat) % 2 = b.toNat := by omega
    refine (select_twoPow _ ⟨2 * i + b.toNat, hlt⟩).trans ((halves_block v hlt).trans ?_)
    simp only [hdiv, hmod, getElem!_pos v i hi]
  · have hzero : BitVec.twoPow 16 (2 * i + b.toNat) = 0 :=
      BitVec.eq_of_toNat_eq (BitVec.toNat_twoPow_of_le (by omega))
    rw [hzero, select_zero, getElem!_neg v i hi]
    exact (part_zero 16 b.toNat).symm

/-- What a term puts into a half. -/
theorem Term.part_eval (v : Vector puint32 8) (t : Term) (b : Bool) :
    part 16 b.toNat (t.eval v) = select (halves (gost3411Block v)) (t.mask b) := by
  have hlow := fun i => select_half v i false
  have hhigh := fun i => select_half v i true
  cases t with
  | word i => exact (select_half v i b).symm
  | low i =>
    cases b with
    | false =>
      rw [Term.eval, part_and]
      exact (BitVec.and_allOnes).trans (hlow i).symm
    | true =>
      rw [Term.eval, part_and]
      exact (BitVec.and_zero).trans (select_zero _).symm
  | high i =>
    cases b with
    | false =>
      rw [Term.eval, part_and]
      exact (BitVec.and_zero).trans (select_zero _).symm
    | true =>
      rw [Term.eval, part_and]
      exact (BitVec.and_allOnes).trans (hhigh i).symm
  | up i =>
    cases b with
    | false => exact (part_shiftLeft_low (w := 16) (k := 1) v[i]! (by decide)).trans (select_zero _).symm
    | true => exact (part_shiftLeft (w := 16) (i := 0) (k := 1) v[i]! (by decide)).trans (hlow i).symm
  | down i =>
    cases b with
    | false => exact (part_ushiftRight (w := 16) v[i]! 0 1).trans (hhigh i).symm
    | true =>
      have hout := (part_ushiftRight (w := 16) v[i]! 1 1).trans (part_of_le (w := 16) v[i]! (by decide))
      exact hout.trans (select_zero _).symm

theorem part_addTerms (v : Vector puint32 8) (x : puint32) (terms : List Term) (b : Bool) :
    part 16 b.toNat (addTerms v x terms) =
      part 16 b.toNat x ^^^ select (halves (gost3411Block v)) (termsMask terms b) := by
  induction terms generalizing x with
  | nil =>
    rw [termsMask, List.foldr_nil, select_zero]
    exact BitVec.xor_zero.symm
  | cons t terms ih =>
    have hmask : termsMask (t :: terms) b = t.mask b ^^^ termsMask terms b := rfl
    rw [addTerms, List.foldl_cons, ← addTerms, ih, part_xor, t.part_eval, hmask, select_xor, BitVec.xor_assoc]

/-! ## The mixing steps -/

theorem halves_xor (X Y : Block) {i : ℕ} (hi : i < 16) :
    (halves (X ^^^ Y))[i] = (halves X)[i] ^^^ (halves Y)[i] := by
  rw [halves, halves, halves, Vector.getElem_ofFn, Vector.getElem_ofFn, Vector.getElem_ofFn, part_xor]

/-- The masks of the two halves of the terms are those of `n` rounds. -/
def HasMasks (terms : Vector (List Term) 8) (n : ℕ) : Prop :=
  ∀ i : Fin 16, termsMask terms[i.val / 2] (i.val % 2 == 1) = (shiftRegister^[n] cellMasks)[i]

instance (terms : Vector (List Term) 8) (n : ℕ) : Decidable (HasMasks terms n) := by
  unfold HasMasks
  infer_instance

/-- **Formulas with the masks of `n` rounds are `n` rounds.** -/
theorem block_addTerms (v x : Vector puint32 8) {terms : Vector (List Term) 8} {n : ℕ} (h : HasMasks terms n) :
    gost3411Block (Vector.ofFn fun i => addTerms v (x.get i) (terms.get i)) =
      gost3411Block x ^^^ psi^[n] (gost3411Block v) := by
  refine eq_of_halves fun i hi => ?_
  have hbit : (i % 2 == 1).toNat = i % 2 := by
    rcases Nat.mod_two_eq_zero_or_one i with hmod | hmod
    · rw [hmod]
      rfl
    · rw [hmod]
      rfl
  have hmask := h ⟨i, hi⟩
  have hterms := part_addTerms v (x[i / 2]) (terms[i / 2]) (i % 2 == 1)
  rw [hbit] at hterms
  rw [halves_xor _ _ hi, halves_block _ hi, halves_block _ hi, Vector.getElem_ofFn, halves_iterate_psi,
    iterate_shiftRegister, Vector.getElem_map]
  refine hterms.trans ?_
  rw [hmask]
  rfl

/-- The hand-expanded formulas of 12 rounds. -/
theorem block_gost3411Psi12 (data S : Vector puint32 8) :
    gost3411Block (gost3411Psi12 data S) = gost3411Block data ^^^ psi^[12] (gost3411Block S) := by
  have hmasks : HasMasks psi12Terms 12 := by decide +kernel
  rw [gost3411Psi12_terms, block_addTerms S data hmasks]

/-- Those of one round. -/
theorem block_gost3411Psi1 (hash U : Vector puint32 8) :
    gost3411Block (gost3411Psi1 hash U) = gost3411Block hash ^^^ psi (gost3411Block U) := by
  have hmasks : HasMasks psi1Terms 1 := by decide +kernel
  rw [gost3411Psi1_terms, block_addTerms U hash hmasks, Function.iterate_one]

/-- Those of 61 rounds. -/
theorem block_gost3411Psi61 (V : Vector puint32 8) :
    gost3411Block (gost3411Psi61 V) = psi^[61] (gost3411Block V) := by
  have hmasks : HasMasks psi61Terms 61 := by decide +kernel
  have hzero : gost3411Block (Vector.replicate 8 0) = 0 := by decide +kernel
  have hsum : gost3411Psi61 V =
    Vector.ofFn fun i => addTerms V ((Vector.replicate 8 0).get i) (psi61Terms.get i) := by
    rw [gost3411Psi61_terms]
    apply Vector.ext
    intro i hi
    rw [Vector.getElem_ofFn, Vector.getElem_ofFn, sumTerms_eq]
    exact congrArg (fun x => addTerms V x psi61Terms[i]) (Vector.getElem_replicate hi).symm
  rw [hsum, block_addTerms V _ hmasks, hzero]
  exact BitVec.zero_xor

end Plibsys
