/-
  The checksum of GOST R 34.11-94: the sum of the blocks, as numbers of 256 bits.
-/
import Plibsys.Crypto.GostStream

namespace Plibsys

open Looping Bytes Blocks WordSum

/-- The number that a block stands for. -/
def gost3411BlockNumber (bs : List UInt8) : ℕ := number (gost3411Words .little bs).toList

/-- The sum of some blocks, as numbers. -/
def gost3411BlocksNumber (blocks : List (List UInt8)) : ℕ := (blocks.map gost3411BlockNumber).sum

/-- The sum of some blocks, as `sum_256` adds them. -/
def gost3411BlocksSum (sum : Vector puint32 8) (blocks : List (List UInt8)) : Vector puint32 8 :=
  blocks.foldl (fun sum bs => ppCryptoHashGost3411Sum256 sum (gost3411Words .little bs)) sum

variable (host : ByteOrder) {ctx : PHashGOST3411} {bs : List UInt8} {blocks : List (List UInt8)}
  {a b : Vector puint32 8}

theorem number_sum256_iff : number (ppCryptoHashGost3411Sum256 a b).toList =
    (number a.toList + number b.toList) % 2 ^ 256 ↔
      ¬ LosesCarry 32 8 (number a.toList) (number b.toList) 0 := by
  have hiff := @number_addWords_iff _ _ _ false (show 0 < 32 by decide)
    (show a.toList.length = b.toList.length by rw [Vector.length_toList, Vector.length_toList])
  rwa [Vector.length_toList, ← toList_sum256] at hiff

/-- The first word of a sum. -/
theorem getElem_zero_sum256 : (ppCryptoHashGost3411Sum256 a b)[0]! = a[0]! + b[0]! := by
  obtain ⟨⟨as⟩, ha⟩ := a
  obtain ⟨⟨bs⟩, hb⟩ := b
  match as, ha, bs, hb with
  | [_, _, _, _, _, _, _, _], _, [_, _, _, _, _, _, _, _], _ => exact BitVec.add_zero _

/-! ## Full blocks -/

/-- A context that has taken in full blocks only. -/
structure GostAligned (ctx : PHashGOST3411) : Prop where
  buf_length : ctx.buf.length = 32
  left_eq : ctx.len[0]!.toNat % 256 = 0

theorem gost3411Left_zero (h : GostAligned ctx) : ((ctx.len[0]! &&& 0xFF) >>> 3).toNat = 0 := by
  have hmask : (ctx.len[0]! &&& 0xFF).toNat = ctx.len[0]!.toNat % 2 ^ 8 := by
    rw [BitVec.toNat_and]
    exact Nat.and_two_pow_sub_one_eq_mod _ 8
  rw [BitVec.toNat_ushiftRight, hmask, show 2 ^ 8 = 256 by decide, h.left_eq]
  rfl

/-- A block is added to the sum. -/
theorem pCryptoHashGost3411Update_block (h : GostAligned ctx) (hbs : bs.length = 32) :
    ∃ ctx', pCryptoHashGost3411Update host ctx bs = some ctx' ∧ GostAligned ctx' ∧
      ctx'.sum = ppCryptoHashGost3411Sum256 ctx.sum (gost3411Words .little bs) := by
  have htaken : (gost3411BlockBuffer host).TakenIn (ctx.hash, ctx.sum) []
      (gost3411Count ctx (BitVec.ofNat 64 bs.length)) := ⟨h.buf_length, rfl, rfl⟩
  obtain ⟨ctx', hupdate, ⟨hbuf, hstate, -⟩, hother⟩ := update_takenIn htaken bs rfl
    (0 ≠ 0 ∧ ((BitVec.ofNat 64 bs.length).setWidth 32).toNat ≥ 32 - 0)
    (iff_of_false (fun h => h.1 rfl) fun h => h.1 rfl)
  refine ⟨ctx', (pCryptoHashGost3411Update_eq host ctx bs (gost3411Left_zero h)).trans hupdate, ⟨hbuf, ?_⟩, ?_⟩
  · have hcount : ctx'.len =
      ppCryptoHashGost3411Sum256 ctx.len (gost3411Len256 (BitVec.ofNat 64 bs.length)) := hother
    have hlen : (gost3411Len256 (BitVec.ofNat 64 bs.length))[0]! = 256 := by
      rw [hbs]
      rfl
    have hleft := h.left_eq
    rw [hcount, getElem_zero_sum256, hlen, BitVec.toNat_add, show (256 : puint32).toNat = 256 by rfl]
    omega
  · have hblock : block 32 bs 0 = bs := List.take_of_length_le (Nat.le_of_eq hbs)
    have hchain : (ctx'.hash, ctx'.sum) = gost3411Step (ctx.hash, ctx.sum) (block 32 bs 0) := by
      have hone : (([] : List UInt8) ++ bs).length / 32 = 1 := by rw [List.nil_append, hbs]
      rw [hone] at hstate
      exact hstate
    rw [hblock] at hchain
    exact congrArg Prod.snd hchain

/-- **The sum of the context**, after any number of full blocks. -/
theorem foldlM_update_blocks (h : GostAligned ctx) (hblocks : ∀ bs ∈ blocks, bs.length = 32) :
    ∃ ctx', blocks.foldlM (pCryptoHashGost3411Update host) ctx = some ctx' ∧ GostAligned ctx' ∧
      ctx'.sum = gost3411BlocksSum ctx.sum blocks := by
  induction blocks generalizing ctx with
  | nil => exact ⟨ctx, rfl, h, rfl⟩
  | cons bs blocks ih =>
    obtain ⟨ctx₁, hupdate, h₁, hsum₁⟩ := pCryptoHashGost3411Update_block host h (hblocks bs List.mem_cons_self)
    obtain ⟨ctx', hrest, h', hsum⟩ := ih h₁ fun d hd => hblocks d (List.mem_cons_of_mem _ hd)
    refine ⟨ctx', ?_, h', ?_⟩
    · rw [List.foldlM_cons, hupdate]
      exact hrest
    · rw [hsum, hsum₁]
      rfl

theorem gostAligned_reset (ctx : PHashGOST3411) : GostAligned (pCryptoHashGost3411Reset ctx) :=
  ⟨List.length_replicate, rfl⟩

/-! ## The sum of the blocks -/

theorem gost3411BlocksSum_concat (sum : Vector puint32 8) (blocks : List (List UInt8)) (bs : List UInt8) :
    gost3411BlocksSum sum (blocks ++ [bs]) =
      ppCryptoHashGost3411Sum256 (gost3411BlocksSum sum blocks) (gost3411Words .little bs) := List.foldl_concat ..

theorem gost3411BlocksNumber_concat (blocks : List (List UInt8)) (bs : List UInt8) :
    gost3411BlocksNumber (blocks ++ [bs]) = gost3411BlocksNumber blocks + gost3411BlockNumber bs := by
  rw [gost3411BlocksNumber, List.map_append, List.sum_append, List.map_singleton, List.sum_singleton]
  rfl

theorem number_blocksSum_iff (blocks : List (List UInt8)) :
    (∀ pre, pre <+: blocks → number (gost3411BlocksSum (Vector.replicate 8 0) pre).toList =
        gost3411BlocksNumber pre % 2 ^ 256) ↔
      ∀ pre bs, pre ++ [bs] <+: blocks →
        ¬ LosesCarry 32 8 (gost3411BlocksNumber pre % 2 ^ 256) (gost3411BlockNumber bs) 0 := by
  constructor
  · intro hsum pre bs hpre
    have hbefore := hsum pre ((List.prefix_append pre [bs]).trans hpre)
    have hafter := hsum _ hpre
    rw [gost3411BlocksSum_concat, gost3411BlocksNumber_concat, ← Nat.mod_add_mod, ← hbefore, gost3411BlockNumber,
      number_sum256_iff, hbefore] at hafter
    exact hafter
  · intro hkept pre
    induction pre using List.reverseRecOn with
    | nil => exact fun _ => rfl
    | append_singleton pre bs ih =>
      intro hpre
      have hbefore := ih ((List.prefix_append pre [bs]).trans hpre)
      have hcarry := hkept pre bs hpre
      rw [gost3411BlockNumber, ← hbefore, ← number_sum256_iff, hbefore, Nat.mod_add_mod] at hcarry
      rw [gost3411BlocksSum_concat, gost3411BlocksNumber_concat]
      exact hcarry

/-- **The sum is that of the numbers exactly when no carry comes to two words of ones** that have a
    word behind them; and so for the sum of the blocks of a message, block by block. -/
theorem gost3411_sum_iff :
    (∀ a b : Vector puint32 8, number (ppCryptoHashGost3411Sum256 a b).toList =
        (number a.toList + number b.toList) % 2 ^ 256 ↔
      ¬ LosesCarry 32 8 (number a.toList) (number b.toList) 0) ∧
    ∀ (ctx : PHashGOST3411) (blocks : List (List UInt8)), (∀ bs ∈ blocks, bs.length = 32) →
      ((∀ pre, pre <+: blocks → ∃ ctx',
          pre.foldlM (pCryptoHashGost3411Update host) (pCryptoHashGost3411Reset ctx) = some ctx' ∧
            number ctx'.sum.toList = gost3411BlocksNumber pre % 2 ^ 256) ↔
        ∀ pre bs, pre ++ [bs] <+: blocks →
          ¬ LosesCarry 32 8 (gost3411BlocksNumber pre % 2 ^ 256) (gost3411BlockNumber bs) 0) := by
  refine ⟨fun a b => number_sum256_iff, fun ctx blocks hblocks => ?_⟩
  rw [← number_blocksSum_iff]
  have hrun : ∀ pre, pre <+: blocks → ∃ ctx',
      pre.foldlM (pCryptoHashGost3411Update host) (pCryptoHashGost3411Reset ctx) = some ctx' ∧
        ctx'.sum = gost3411BlocksSum (Vector.replicate 8 0) pre := by
    intro pre hpre
    obtain ⟨ctx', hupdate, -, hsum⟩ := foldlM_update_blocks host (gostAligned_reset ctx)
      fun bs hbs => hblocks bs (hpre.subset hbs)
    exact ⟨ctx', hupdate, hsum⟩
  constructor
  · intro h pre hpre
    obtain ⟨ctx', hupdate, hsum⟩ := hrun pre hpre
    obtain ⟨ctx'', hupdate', hnumber⟩ := h pre hpre
    rw [hupdate] at hupdate'
    rw [← hsum, Option.some.inj hupdate', hnumber]
  · intro h pre hpre
    obtain ⟨ctx', hupdate, hsum⟩ := hrun pre hpre
    exact ⟨ctx', hupdate, by rw [hsum, h pre hpre]⟩

theorem gost3411_sum_iff_ones :
    (∀ pre, pre <+: [List.replicate 32 0xFF, List.replicate 32 0xFF] → ∃ ctx',
        pre.foldlM (pCryptoHashGost3411Update .little) (pCryptoHashGost3411Reset pCryptoHashGost3411New) =
          some ctx' ∧
          number ctx'.sum.toList = gost3411BlocksNumber pre % 2 ^ 256) ↔
      ∀ pre bs, pre ++ [bs] <+: [List.replicate 32 0xFF, List.replicate 32 0xFF] →
        ¬ LosesCarry 32 8 (gost3411BlocksNumber pre % 2 ^ 256) (gost3411BlockNumber bs) 0 :=
  (gost3411_sum_iff .little).2 pCryptoHashGost3411New [List.replicate 32 0xFF, List.replicate 32 0xFF] (by decide)

/-- A carry that comes to two words of ones is lost. -/
theorem gost3411_sum_loses : number (ppCryptoHashGost3411Sum256 #v[0xFFFFFFFF, 0xFFFFFFFF, 0, 0, 0, 0, 0, 0]
      #v[0xFFFFFFFF, 0xFFFFFFFF, 0, 0, 0, 0, 0, 0]).toList ≠
    (number (#v[0xFFFFFFFF, 0xFFFFFFFF, 0, 0, 0, 0, 0, 0] : Vector puint32 8).toList +
      number (#v[0xFFFFFFFF, 0xFFFFFFFF, 0, 0, 0, 0, 0, 0] : Vector puint32 8).toList) % 2 ^ 256 := by
  decide

end Plibsys
