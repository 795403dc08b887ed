/-
  Updates of any length.

  An update is `Exact` when it counts all its bytes, and the blocks that it processes and what it
  leaves in the buffer are those of the waiting bytes followed by the new ones.  A length is cut to
  32 bits where MD5, SHA-1 and SHA-2/256 count it, and where all but SHA-2/512 decide whether the
  data fill up the buffer.
-/
import Plibsys.Crypto.LifeCycle

namespace Plibsys

open Bytes Blocks WordSum

/-! ## Exact updates -/

/-- What an update does to a context: the counter, in units of a byte's size, and the blocks. -/
structure UpdateView (Context β : Type) where
  update : Context → List UInt8 → Option Context
  count : Context → ℕ
  unit : ℕ
  modulus : ℕ
  size : ℕ
  buf : Context → List UInt8
  /-- the number of bytes that wait in the buffer, from the counter -/
  left : Context → ℕ
  state : Context → β
  step : β → List UInt8 → β

/-- The context `c'` is `c` after the blocks of the waiting bytes and `data`, with the rest in the
    buffer. -/
structure UpdateView.TakesIn {Context β : Type} (V : UpdateView Context β) (c : Context) (data : List UInt8)
    (c' : Context) :
    Prop where
  state_eq : let stream := (V.buf c).take (V.left c) ++ data
    V.state c' = chain V.step V.size (V.state c) stream (stream.length / V.size)
  buf_eq : let stream := (V.buf c).take (V.left c) ++ data
    (V.buf c').take (stream.length % V.size) = stream.drop (V.size * (stream.length / V.size))

/-- **An update with `len` bytes is exact**: it stays inside the buffer, counts the bytes, and takes
    them in behind those that wait. -/
def UpdateView.Exact {Context β : Type} (V : UpdateView Context β) (c : Context) (len : ℕ) : Prop :=
  ∀ data : List UInt8, data.length = len → ∃ c', V.update c data = some c' ∧
    V.count c' = (V.count c + V.unit * len) % V.modulus ∧ V.TakesIn c data c'

/-- The contexts that the functions of an algorithm lead to. -/
inductive PHashFuncs.Reachable {Context : Type} (f : PHashFuncs Context) : Context → Prop where
  | create : Reachable f f.create
  | update {c c' data} : Reachable f c → data.length < 2 ^ 64 → f.update c data = some c' → Reachable f c'
  | finish {c c'} : Reachable f c → f.finish c = some c' → Reachable f c'
  | reset {c} : Reachable f c → Reachable f (f.reset c)

theorem PHashFuncs.Sound.reachable {Context : Type} {f : PHashFuncs Context} {inv : Context → Prop}
    (hf : f.Sound inv)
    {c : Context} (h : f.Reachable c) : inv c := by
  induction h with
  | create => exact hf.create
  | update _ _ hupdate ih =>
    obtain ⟨c', hc', hinv⟩ := hf.update _ _ ih
    rw [hupdate] at hc'
    exact Option.some.inj hc' ▸ hinv
  | finish _ hfinish ih =>
    obtain ⟨c', hc', hinv⟩ := hf.finish _ ih
    rw [hfinish] at hc'
    exact Option.some.inj hc' ▸ hinv
  | reset _ ih =>
    rw [hf.reset _ ih]
    exact hf.create

/-! ## MD5, SHA-1 and SHA-2 -/

section
variable {w n : ℕ} (host : ByteOrder) (alg : MdAlgorithm w n)

/-- The number of bytes in the counters. -/
def mdBytes (c : PHashContext w n) : ℕ := c.len_high.toNat * 2 ^ w + c.len_low.toNat

def mdView : UpdateView (PHashContext w n) (Vector (BitVec w) n) where
  update := mdUpdate host alg
  count := mdBytes
  unit := 1
  modulus := 2 ^ (2 * w)
  size := 2 * w
  buf := PHashContext.buf
  left c := (c.len_low &&& BitVec.ofNat w (2 * w - 1)).toNat
  state := PHashContext.hash
  step := alg.step

variable {alg} {c : PHashContext w n} {data : List UInt8} {len : ℕ}

theorem mdBytes_lt (c : PHashContext w n) : mdBytes c < 2 ^ (2 * w) := by
  have hhigh := c.len_high.isLt
  have hlow := c.len_low.isLt
  have hle := Nat.mul_le_mul_right (2 ^ w) (Nat.succ_le_of_lt hhigh)
  rw [Nat.succ_mul] at hle
  rw [mdBytes, Nat.two_mul, Nat.pow_add]
  omega

theorem mdBytes_mdCount (hw : 0 < w) (c : PHashContext w n) (len : ℕ) :
    mdBytes (mdCount c (BitVec.ofNat w len)) = (mdBytes c + len % 2 ^ w) % 2 ^ (2 * w) := by
  have hofNat : BitVec.ofNat w len = BitVec.ofNat w (len % 2 ^ w) := by
    apply BitVec.eq_of_toNat_eq
    rw [BitVec.toNat_ofNat, BitVec.toNat_ofNat, Nat.mod_mod]
  rw [hofNat]
  exact counter_add hw (Nat.mod_eq_of_lt (mdBytes_lt c)).symm (Nat.mod_lt _ (Nat.two_pow_pos w))

theorem mdBytes_of_other (h : alg.Lawful) {c c' : PHashContext w n}
    (hother : (mdBlockBuffer host h).other c' = (mdBlockBuffer host h).other c) : mdBytes c' = mdBytes c := by
  have hhigh : c'.len_high = c.len_high := congrArg Prod.fst hother
  have hlow : c'.len_low = c.len_low := congrArg (fun o => o.2.1) hother
  rw [mdBytes, hhigh, hlow]
  rfl

/-- The counters advance by what 32 or 64 bits hold of the length. -/
theorem mdUpdate_bytes (h : alg.Lawful) (hbuf : c.buf.length = 2 * w) (data : List UInt8) :
    ∃ c', mdUpdate host alg c data = some c' ∧ mdBytes c' = (mdBytes c + data.length % 2 ^ w) % 2 ^ (2 * w) := by
  obtain ⟨c', hupdate, -, hother⟩ := mdUpdate_other host h hbuf data
  refine ⟨c', hupdate, ?_⟩
  rw [mdBytes_of_other host h hother, mdBytes_mdCount (by have := h.pos; omega)]

/-- A length that is not cut is exact. -/
theorem mdView_exact (h : alg.Lawful) (hbuf : c.buf.length = 2 * w) (hlen : len < 2 ^ w) :
    (mdView host alg).Exact c len := by
  rintro data rfl
  generalize hleft : (c.len_low &&& BitVec.ofNat w (2 * w - 1)).toNat = left
  have hlt : left < 2 * w := by
    rw [← hleft, h.left_eq]
    exact Nat.mod_lt _ h.pos
  have hnat : (BitVec.ofNat w data.length).toNat = data.length := by
    rw [BitVec.toNat_ofNat, Nat.mod_eq_of_lt hlen]
  have hpending := takenIn_pending (B := mdBlockBuffer host h) (c := mdCount c (BitVec.ofNat w data.length))
    hbuf hlt
  have hmod : (c.buf.take left).length % (2 * w) = left := by
    rw [List.length_take_of_le (by omega), Nat.mod_eq_of_lt hlt]
  obtain ⟨c', hupdate, ⟨-, hstate, hrest⟩, hother⟩ := update_takenIn hpending data hmod.symm
    (left ≠ 0 ∧ (BitVec.ofNat w data.length).toNat ≥ 2 * w - left) (by rw [hnat])
  refine ⟨c', (mdUpdate_eq host h c data hleft).trans hupdate, ?_, ?_, ?_⟩
  · have hcount := mdBytes_mdCount (by have := h.pos; omega) c data.length
    rw [Nat.mod_eq_of_lt hlen] at hcount
    show mdBytes c' = (mdBytes c + 1 * data.length) % 2 ^ (2 * w)
    rw [mdBytes_of_other host h hother, hcount, Nat.one_mul]
  · subst hleft
    exact hstate
  · subst hleft
    exact hrest

/-- **With words of 32 bits**, exactly the lengths that are not cut. -/
theorem mdView_exact_iff (h : alg.Lawful) (hw : w = 32) (hbuf : c.buf.length = 2 * w) (hlen : len < 2 ^ 64) :
    (mdView host alg).Exact c len ↔ len < 2 ^ 32 := by
  constructor
  · intro hexact
    obtain ⟨c₁, hupdate, hcount, -⟩ := hexact (List.replicate len 0) List.length_replicate
    obtain ⟨c₂, hupdate', hcount'⟩ := mdUpdate_bytes host h hbuf (List.replicate len 0)
    have hsame : c₁ = c₂ := Option.some.inj (hupdate.symm.trans hupdate')
    have hcount : mdBytes c₁ = (mdBytes c + 1 * len) % 2 ^ (2 * w) := hcount
    have hlt := mdBytes_lt c
    rw [List.length_replicate] at hcount'
    subst hsame hw
    omega
  · intro hlt
    exact mdView_exact host h hbuf (hw ▸ hlt)

end

/-! ## GOST R 34.11-94 -/

section
variable (host : ByteOrder)

def gostView : UpdateView PHashGOST3411 (Vector puint32 8 × Vector puint32 8) where
  update := pCryptoHashGost3411Update host
  count c := number c.len.toList
  unit := 8
  modulus := 2 ^ 256
  size := 32
  buf := PHashGOST3411.buf
  left c := ((c.len[0]! &&& 0xFF) >>> 3).toNat
  state c := (c.hash, c.sum)
  step := gost3411Step

/-- The counter advances by the whole length: no bit is shifted out, and the carry into the third
    word is found. -/
def GostCounts (words : Vector puint32 8) (len : ℕ) : Prop :=
  len < 2 ^ 61 ∧ ¬ (2 ^ 61 - 2 ^ 29 ≤ len ∧ words[1]! = 0xFFFFFFFF ∧ 2 ^ 32 ≤ words[0]!.toNat + 8 * len % 2 ^ 32)

/-- The low 32 bits of the length say whether the data fill up the buffer. -/
def GostFills (left len : ℕ) : Prop := left = 0 ∨ len < 32 - left ∨ 32 - left ≤ len % 2 ^ 32

variable {c : PHashGOST3411} {len : ℕ}

/-- The first two words of the length, and what they leave out. -/
theorem gost3411Len256_words (hlen : len < 2 ^ 64) : ∃ b₀ b₁ : puint32,
    (gost3411Len256 (BitVec.ofNat 64 len)).toList = [b₀, b₁, 0, 0, 0, 0, 0, 0] ∧ b₀.toNat = 8 * len % 2 ^ 32 ∧
      b₁.toNat = len / 2 ^ 29 % 2 ^ 32 := by
  have hnat : (BitVec.ofNat 64 len).toNat = len := by
    rw [BitVec.toNat_ofNat, Nat.mod_eq_of_lt hlen]
  refine ⟨_, _, rfl, ?_, ?_⟩
  · rw [BitVec.toNat_setWidth, BitVec.toNat_shiftLeft, hnat, Nat.shiftLeft_eq]
    omega
  · rw [BitVec.toNat_setWidth, BitVec.toNat_ushiftRight, hnat, Nat.shiftRight_eq_div_pow]

/-- What follows the first two words: only a carry is added. -/
theorem number_addWords_zeros {as : List puint32} (has : as.length = 6) (carry : Bool) :
    number (addWords as [0, 0, 0, 0, 0, 0] carry) = (number as + carry.toNat) % 2 ^ 192 := by
  have hzero : number [(0 : puint32), 0, 0, 0, 0, 0] = 0 := by decide
  have hkeeps : KeepsCarry as [(0 : puint32), 0, 0, 0, 0, 0] carry := by
    refine keepsCarry_of_ne fun b hb => ?_
    rw [List.eq_of_mem_replicate (n := 6) hb]
    decide
  rw [number_addWords (by decide) has hkeeps, hzero, has]
  rfl

/-- The whole sum: `c₀` and `c₁` are the carries that are found behind the first and the second word. -/
theorem number_count_words (words : Vector puint32 8) (hlen : len < 2 ^ 64) : ∃ A s₀ s₁ c₀ c₁ : ℕ,
    number words.toList = words[0]!.toNat + 2 ^ 32 * (words[1]!.toNat + 2 ^ 32 * A) ∧
    number (ppCryptoHashGost3411Sum256 words (gost3411Len256 (BitVec.ofNat 64 len))).toList =
      s₀ + 2 ^ 32 * (s₁ + 2 ^ 32 * ((A + c₁) % 2 ^ 192)) ∧
    s₀ < 2 ^ 32 ∧ s₁ < 2 ^ 32 ∧ c₀ ≤ 1 ∧ c₁ ≤ 1 ∧ s₀ + 2 ^ 32 * c₀ = words[0]!.toNat + 8 * len % 2 ^ 32 ∧
    (c₀ = 1 ∧ words[1]!.toNat = 2 ^ 32 - 1 ∧ len / 2 ^ 29 % 2 ^ 32 = 2 ^ 32 - 1 → s₁ = 2 ^ 32 - 1 ∧ c₁ = 0) ∧
    (¬ (c₀ = 1 ∧ words[1]!.toNat = 2 ^ 32 - 1 ∧ len / 2 ^ 29 % 2 ^ 32 = 2 ^ 32 - 1) →
      s₁ + 2 ^ 32 * c₁ = words[1]!.toNat + len / 2 ^ 29 % 2 ^ 32 + c₀) := by
  obtain ⟨b₀, b₁, hb, hb₀, hb₁⟩ := gost3411Len256_words hlen
  rw [toList_sum256, hb]
  obtain ⟨⟨as⟩, has⟩ := words
  match as, has with
  | a₀ :: a₁ :: as, has =>
    have hrest : as.length = 6 := by simpa using has
    have hfirst : (sum a₀ b₀ false).toNat + 2 ^ 32 * (carryOut a₀ b₀ false).toNat = a₀.toNat + b₀.toNat + 0 :=
      sum_add_carryOut (by decide) nofun
    refine ⟨number as, (sum a₀ b₀ false).toNat, (sum a₁ b₁ (carryOut a₀ b₀ false)).toNat,
      (carryOut a₀ b₀ false).toNat,
      (carryOut a₁ b₁ (carryOut a₀ b₀ false)).toNat, ?_, ?_, (sum a₀ b₀ false).isLt,
      (sum a₁ b₁ (carryOut a₀ b₀ false)).isLt, Bool.toNat_le _, Bool.toNat_le _, ?_, ?_, ?_⟩
    · show number (a₀ :: a₁ :: as) = _
      rw [number_cons, number_cons]
      rfl
    · show number (addWords (a₀ :: a₁ :: as) _ false) = _
      rw [addWords, addWords, number_cons, number_cons, number_addWords_zeros hrest]
    · rw [← hb₀]
      exact hfirst
    · rintro ⟨hc, ha, hb⟩
      obtain ⟨hsum, hout⟩ := sum_allOnes (w := 32) (by decide)
      rw [← hb₁] at hb
      have hones : a₁ = BitVec.allOnes 32 := allOnes_iff.2 ha
      rw [Bool.toNat_eq_one.1 hc, hones, allOnes_iff.2 hb]
      exact ⟨hsum, by rw [hout]; rfl⟩
    · intro hkept
      rw [← hb₁] at hkept ⊢
      refine sum_add_carryOut (by decide) fun hc hones => hkept ⟨Bool.toNat_eq_one.2 hc, ?_, ?_⟩
      · exact allOnes_iff.1 hones.1
      · exact allOnes_iff.1 hones.2

/-- **The counter**, after a length of up to 64 bits. -/
theorem number_count_iff (words : Vector puint32 8) (hlen : len < 2 ^ 64) :
    number (ppCryptoHashGost3411Sum256 words (gost3411Len256 (BitVec.ofNat 64 len))).toList =
      (number words.toList + 8 * len) % 2 ^ 256 ↔ GostCounts words len := by
  obtain ⟨A, s₀, s₁, c₀, c₁, hnumber, hsum, hs₀, hs₁, hc₀, hc₁, hfirst, hlost, hkept⟩ :=
    number_count_words words hlen
  have hones : words[1]! = 0xFFFFFFFF ↔ words[1]!.toNat = 2 ^ 32 - 1 := allOnes_iff
  rw [hsum, hnumber, GostCounts, hones]
  generalize words[0]!.toNat = a₀ at *
  generalize words[1]!.toNat = a₁ at *
  by_cases hloss : c₀ = 1 ∧ a₁ = 2 ^ 32 - 1 ∧ len / 2 ^ 29 % 2 ^ 32 = 2 ^ 32 - 1
  · have hword := hlost hloss
    omega
  · have hword := hkept hloss
    omega

/-- The bytes that tell the last full block from what belongs in front of the rest. -/
def tellTale (len : ℕ) : List UInt8 := List.replicate (32 * (len / 32) - 4) 0 ++ List.replicate (4 + len % 32) 1

theorem length_tellTale (h : 32 ≤ len) : (tellTale len).length = len := by
  rw [tellTale, List.length_append, List.length_replicate, List.length_replicate]
  omega

theorem getElem?_tellTale_one {i : ℕ} (hle : 32 * (len / 32) - 4 ≤ i) (hi : i < 32 * (len / 32)) :
    (tellTale len)[i]? = some 1 := by
  rw [tellTale, List.getElem?_append_right (by rwa [List.length_replicate]), List.length_replicate,
    List.getElem?_replicate,
    if_pos (by omega)]

theorem block_tellTale (h : 32 ≤ len) :
    block 32 (tellTale len) (len / 32 - 1) = List.replicate 28 0 ++ List.replicate 4 1 := by
  have hzeros : 32 * (len / 32) - 4 = 32 * (len / 32 - 1) + 28 := by omega
  rw [block, tellTale, hzeros, List.replicate_add, List.append_assoc]
  rw [List.drop_left' List.length_replicate, List.replicate_add, ← List.append_assoc]
  exact List.take_left' (show (List.replicate 28 0 ++ List.replicate 4 1).length = 32 from rfl)

/-- The block is stored as it came, in both byte orders. -/
theorem buf_process_tellTale (c₀ : PHashGOST3411) (hbuf : c₀.buf = List.replicate 28 0 ++ List.replicate 4 1) :
    (gost3411ProcessBuffer host c₀).buf = List.replicate 28 0 ++ List.replicate 4 1 := by
  have hstored : ∀ o, hostBytes o (ppCryptoHashGost3411SwapBytes o
      (gost3411Words o (List.replicate 28 0 ++ List.replicate 4 1))) =
        List.replicate 28 0 ++ List.replicate 4 1 := by
    intro o
    cases o <;> decide +kernel
  rw [gost3411ProcessBuffer, hbuf]
  exact hstored host

/-- Waiting bytes that are not completed are overwritten. -/
theorem not_takesIn_of_not_fills {left : ℕ} (hbuf : c.buf.length = 32)
    (hleft : ((c.len[0]! &&& 0xFF) >>> 3).toNat = left)
    (hne : left ≠ 0) (hle : 32 - left ≤ len) (hlow : len % 2 ^ 32 < 32 - left) (hlen : len < 2 ^ 64) :
    ∀ c', pCryptoHashGost3411Update host c (tellTale len) = some c' →
      ¬ (gostView host).TakesIn c (tellTale len) c' := by
  have hbig : 32 ≤ len := by omega
  have hmod : len % 2 ^ 32 % 32 = len % 32 := Nat.mod_mod_of_dvd _ (by decide)
  have hsmall := Nat.mod_le (len % 2 ^ 32) 32
  have hlength := length_tellTale hbig
  have hnot : ¬ (left ≠ 0 ∧ ((BitVec.ofNat 64 (tellTale len).length).setWidth 32).toNat ≥ 32 - left) := by
    rw [hlength, BitVec.toNat_setWidth, BitVec.toNat_ofNat]
    omega
  obtain ⟨c₀, c', hupdate, hfront⟩ := updateRest_last (B := gost3411BlockBuffer host)
    (c := gost3411Count c (BitVec.ofNat 64 (tellTale len).length)) hbuf
    (show 32 ≤ (tellTale len).length by omega) (show left + (tellTale len).length % 32 ≤ 32 by omega)
  rw [hlength, block_tellTale hbig] at hfront
  have hlast := buf_process_tellTale host { c₀ with buf := List.replicate 28 0 ++ List.replicate 4 1 } rfl
  intro c₁ hc₁ htakes
  rw [pCryptoHashGost3411Update_eq host c _ hleft, BlockBuffer.update, if_neg hnot, hupdate] at hc₁
  have hpending : (c.buf.take left).length = left := List.length_take_of_le (by omega)
  have htotal : (c.buf.take left ++ tellTale len).length = 32 * (len / 32) + (left + len % 32) := by
    rw [List.length_append, hpending, hlength]
    omega
  have hquot : (c.buf.take left ++ tellTale len).length / 32 = len / 32 := by omega
  have hrest : (c.buf.take left ++ tellTale len).length % 32 = left + len % 32 := by omega
  have hbehind : c₁.buf.take (left + len % 32) = (c.buf.take left ++ tellTale len).drop (32 * (len / 32)) := by
    have hbuf_eq := htakes.buf_eq
    simp only [gostView, hleft, hquot, hrest] at hbuf_eq
    exact hbuf_eq
  have hfront : c₁.buf.take (left + len % 32) =
      (List.replicate 28 (0 : UInt8) ++ List.replicate 4 1).take left ++ (tellTale len).drop
      (32 * (len / 32)) := by
    rw [← hlast, ← Option.some.inj hc₁]
    exact hfront
  -- a byte of the last word should come first, and a byte of another word does
  have hbyte : ∀ i, i < left → 32 * (len / 32) - 4 ≤ 32 * (len / 32) + i - left → i < 28 → False := by
    intro i hi hge hlt
    have hone : ((c.buf.take left ++ tellTale len).drop (32 * (len / 32)))[i]? = some 1 := by
      rw [List.getElem?_drop, List.getElem?_append_right (by omega), hpending]
      exact getElem?_tellTale_one hge (by omega)
    have hzero : ((List.replicate 28 (0 : UInt8) ++ List.replicate 4 1).take left ++
        (tellTale len).drop (32 * (len / 32)))[i]? = some (0 : UInt8) := by
      have hshort : i < ((List.replicate 28 (0 : UInt8) ++ List.replicate 4 1).take left).length := by
        rw [List.length_take]
        exact Nat.lt_min.2 ⟨hi, Nat.lt_of_lt_of_le hlt (by decide)⟩
      rw [List.getElem?_append_left hshort, List.getElem?_take_of_lt hi,
        List.getElem?_append_left (by rwa [List.length_replicate]), List.getElem?_replicate, if_pos hlt]
    rw [← hbehind, hfront, hzero] at hone
    cases hone
  by_cases hfour : left < 4
  · exact hbyte (left - 1) (by omega) (by omega) (by omega)
  · exact hbyte (left - 4) (by omega) (by omega) (by have := gost3411Left_lt c.len[0]!; omega)

/-- **An update is exact** exactly when it counts the length and sees that the data fill up the
    buffer. -/
theorem gostView_exact_iff (hbuf : c.buf.length = 32) (hlen : len < 2 ^ 64) :
    (gostView host).Exact c len ↔ GostCounts c.len len ∧ GostFills ((c.len[0]! &&& 0xFF) >>> 3).toNat len := by
  generalize hleft : ((c.len[0]! &&& 0xFF) >>> 3).toNat = left
  have hlt : left < 32 := hleft ▸ gost3411Left_lt c.len[0]!
  constructor
  · intro hexact
    refine ⟨?_, ?_⟩
    · obtain ⟨c₁, hupdate, hcount, -⟩ := hexact (List.replicate len 0) List.length_replicate
      obtain ⟨c₂, hupdate', -, hother⟩ := pCryptoHashGost3411Update_other host hbuf (List.replicate len 0)
      have hsame : c₁ = c₂ := Option.some.inj (hupdate.symm.trans hupdate')
      have hcount : number c₁.len.toList = (number c.len.toList + 8 * len) % 2 ^ 256 := hcount
      rw [hsame, hother, List.length_replicate] at hcount
      exact (number_count_iff c.len hlen).1 hcount
    · by_contra hfills
      obtain ⟨hne, hrest⟩ := not_or.1 hfills
      obtain ⟨hle, hlow⟩ := not_or.1 hrest
      obtain ⟨c₁, hupdate, -, htakes⟩ := hexact (tellTale len) (length_tellTale (by omega))
      exact not_takesIn_of_not_fills host hbuf hleft hne (Nat.le_of_not_lt hle)
        (Nat.lt_of_not_le hlow) hlen c₁ hupdate htakes
  · rintro ⟨hcounts, hfills⟩ data rfl
    have hnat : ((BitVec.ofNat 64 data.length).setWidth 32).toNat = data.length % 2 ^ 32 := by
      rw [BitVec.toNat_setWidth, BitVec.toNat_ofNat]
      omega
    have hpending := takenIn_pending (B := gost3411BlockBuffer host)
      (c := gost3411Count c (BitVec.ofNat 64 data.length)) hbuf hlt
    have hmod : (c.buf.take left).length % 32 = left := by
      rw [List.length_take_of_le (by omega), Nat.mod_eq_of_lt hlt]
    have hfull : (left ≠ 0 ∧ ((BitVec.ofNat 64 data.length).setWidth 32).toNat ≥ 32 - left) ↔
        left ≠ 0 ∧ 32 - left ≤ data.length := by
      rw [hnat]
      have hle := Nat.mod_le data.length (2 ^ 32)
      rw [GostFills] at hfills
      omega
    obtain ⟨c', hupdate, ⟨-, hstate, hrest⟩, hother⟩ := update_takenIn hpending data hmod.symm
      (left ≠ 0 ∧ ((BitVec.ofNat 64 data.length).setWidth 32).toNat ≥ 32 - left) hfull
    have hcount : c'.len = ppCryptoHashGost3411Sum256 c.len (gost3411Len256 (BitVec.ofNat 64 data.length)) :=
      hother
    refine ⟨c', (pCryptoHashGost3411Update_eq host c data hleft).trans hupdate, ?_, ?_, ?_⟩
    · show number c'.len.toList = _
      rw [hcount]
      exact (number_count_iff c.len hlen).2 hcounts
    · subst hleft
      exact hstate
    · subst hleft
      exact hrest

end

/-! ## All types -/

/-- Updates of this length are exact, by type. -/
def PCryptoHashType.Exact (host : ByteOrder) : (type : PCryptoHashType) → type.Context → ℕ → Prop
  | .MD5 => (mdView host md5Algorithm).Exact
  | .SHA1 => (mdView host sha1Algorithm).Exact
  | .SHA2_224 | .SHA2_256 => (mdView host sha2_256Algorithm).Exact
  | .SHA2_384 | .SHA2_512 => (mdView host sha2_512Algorithm).Exact
  | .GOST => (gostView host).Exact

/-- When they are. -/
def PCryptoHashType.ExactWhen : (type : PCryptoHashType) → type.Context → ℕ → Prop
  | .MD5 | .SHA1 | .SHA2_224 | .SHA2_256 => fun _ len => len < 2 ^ 32
  | .SHA2_384 | .SHA2_512 => fun _ _ => True
  | .GOST => fun c len => GostCounts c.len len ∧ GostFills ((c.len[0]! &&& 0xFF) >>> 3).toNat len

/-- MD5 does not count `2 ^ 32` bytes. -/
theorem not_exact_md5New : ¬ PCryptoHashType.MD5.Exact .little pCryptoHashMd5New (2 ^ 32) := by
  intro hexact
  have hbuf : (pCryptoHashMd5New).buf.length = 2 * 32 := rfl
  have hlt := (mdView_exact_iff .little md5Algorithm_lawful rfl hbuf (by decide)).1 hexact
  exact absurd hlt (by decide)

/-- **Which updates are exact**, for every type, context and length. -/
theorem update_exact_iff (host : ByteOrder) (type : PCryptoHashType) (c : type.Context)
    (hc : (pHashFuncs host type).Reachable c) (len : ℕ) (hlen : len < 2 ^ 64) :
    type.Exact host c len ↔ type.ExactWhen c len := by
  cases type with
  | MD5 =>
    have hbuf := ((mdFuncs_sound host false md5Algorithm_lawful).reachable hc).1
    exact mdView_exact_iff host md5Algorithm_lawful rfl hbuf hlen
  | SHA1 =>
    have hbuf := ((mdFuncs_sound host false sha1Algorithm_lawful).reachable hc).1
    exact mdView_exact_iff host sha1Algorithm_lawful rfl hbuf hlen
  | SHA2_224 =>
    have hbuf := ((mdFuncs_sound host true sha2_256Algorithm_lawful).reachable hc).1
    exact mdView_exact_iff host sha2_256Algorithm_lawful rfl hbuf hlen
  | SHA2_256 =>
    have hbuf := ((mdFuncs_sound host false sha2_256Algorithm_lawful).reachable hc).1
    exact mdView_exact_iff host sha2_256Algorithm_lawful rfl hbuf hlen
  | SHA2_384 =>
    have hbuf := ((mdFuncs_sound host true sha2_512Algorithm_lawful).reachable hc).1
    exact iff_of_true (mdView_exact host sha2_512Algorithm_lawful hbuf hlen) trivial
  | SHA2_512 =>
    have hbuf := ((mdFuncs_sound host false sha2_512Algorithm_lawful).reachable hc).1
    exact iff_of_true (mdView_exact host sha2_512Algorithm_lawful hbuf hlen) trivial
  | GOST => exact gostView_exact_iff host ((gostFuncs_sound host).reachable hc) hlen

/-- GOST with three bytes in the buffer, and a length that does not fit in 32 bits. -/
theorem update_exact_iff_waiting :
    ∃ c, pCryptoHashGost3411Update .little pCryptoHashGost3411New [1, 2, 3] = some c ∧
      (PCryptoHashType.GOST.Exact .little c (2 ^ 32 + 5) ↔ PCryptoHashType.GOST.ExactWhen c (2 ^ 32 + 5)) := by
  obtain ⟨c, hupdate, -⟩ := pCryptoHashGost3411Update_total .little (gostFuncs_sound .little).create [1, 2, 3]
  exact ⟨c, hupdate, update_exact_iff .little .GOST c (.update .create (by decide) hupdate) _ (by decide)⟩

end Plibsys
