/-
  Hashing in chunks.

  A context is a block buffer with counters.  It has `Absorbed` a message when its hash value is
  the chain over the full blocks of the message, its buffer starts with the rest, and its
  counters have the length; `mdUpdate_absorbed` is one call of `update`.
-/
import Mathlib.Tactic.IntervalCases
import Plibsys.Crypto.MerkleDamgard
import Plibsys.Lib.BlockBuffer

namespace Plibsys

open Looping Bytes Blocks

section
variable {w n : ℕ} (alg : MdAlgorithm w n)

/-! ## The hash of a message -/

/-- The block function on the bytes of a block. -/
def MdAlgorithm.step (hash : Vector (BitVec w) n) (bs : List UInt8) : Vector (BitVec w) n :=
  alg.process hash (hostWords alg.order bs)

/-- What follows a message of `len` bytes: 0x80, zeros, and the number of bits in the last two
    words. -/
def MdAlgorithm.padding (len : ℕ) : List UInt8 :=
  0x80 :: List.replicate ((2 * w + 14 * (w / 8) - 1 - len % (2 * w)) % (2 * w)) 0 ++
    toBytes alg.order (2 * (w / 8)) (8 * len)

/-- The block function folded over the padded message, and the bytes of the digest. -/
def MdAlgorithm.digest (flag : Bool) (message : List UInt8) : List UInt8 :=
  let padded := message ++ alg.padding message.length
  (hostBytes alg.order (chain alg.step (2 * w) (alg.init flag) padded (padded.length / (2 * w)))).take
    (alg.digestWords flag * (w / 8))

/-- The width of the words is 32 or 64, and `swap` swaps bytes. -/
structure MdAlgorithm.Lawful : Prop where
  width : w = 32 ∨ w = 64
  swap_eq : ∀ v, alg.swap v = reverseBytes v

end

theorem pUint32SwapBytes_eq (val : puint32) : pUint32SwapBytes val = reverseBytes val := by
  refine BitVec.eq_of_getLsbD_eq fun i hi => ?_
  rw [getLsbD_reverseBytes (by decide) val hi, pUint32SwapBytes]
  interval_cases i <;> simp

theorem pUint64SwapBytes_eq (val : puint64) : pUint64SwapBytes val = reverseBytes val := by
  refine BitVec.eq_of_getLsbD_eq fun i hi => ?_
  rw [getLsbD_reverseBytes (by decide) val hi, pUint64SwapBytes]
  interval_cases i <;> simp

variable {w n : ℕ} (host : ByteOrder) {alg : MdAlgorithm w n} {c : PHashContext w n} {flag : Bool}
  {buf data message rest src : List UInt8} {k : ℕ}

namespace MdAlgorithm.Lawful

theorem dvd (h : alg.Lawful) : 8 ∣ w := by
  rcases h.width with rfl | rfl <;> decide

theorem pos (h : alg.Lawful) : 0 < 2 * w := by
  rcases h.width with rfl | rfl <;> decide

/-- A word that is read and swapped is read in the order of the algorithm. -/
theorem swap_word (h : alg.Lawful) {bs : List UInt8} (hbs : bs.length = w / 8) :
    (if host ≠ alg.order then alg.swap (word host w bs) else word host w bs) = word alg.order w bs := by
  split_ifs with hne
  · rw [h.swap_eq, reverseBytes_word h.dvd hbs hne]
  · rw [not_not.1 hne]

/-- A word that is swapped and stored is stored in the order of the algorithm. -/
theorem bytes_swap (h : alg.Lawful) (v : BitVec w) :
    bytes host (if host ≠ alg.order then alg.swap v else v) = bytes alg.order v := by
  split_ifs with hne
  · rw [h.swap_eq, bytes_reverseBytes h.dvd v hne]
  · rw [not_not.1 hne]

/-- The low bits of the length are the position in the buffer. -/
theorem left_eq (h : alg.Lawful) (len : BitVec w) :
    (len &&& BitVec.ofNat w (2 * w - 1)).toNat = len.toNat % (2 * w) := by
  have hmask : ∀ j, 2 * w = 2 ^ j → 2 * w - 1 < 2 ^ w →
      (len &&& BitVec.ofNat w (2 * w - 1)).toNat = len.toNat % (2 * w) := by
    intro j hj hlt
    rw [BitVec.toNat_and, BitVec.toNat_ofNat, Nat.mod_eq_of_lt hlt, hj, Nat.and_two_pow_sub_one_eq_mod]
  rcases h.width with rfl | rfl
  · exact hmask 6 rfl (by omega)
  · exact hmask 7 rfl (by omega)

end MdAlgorithm.Lawful

/-! ## Blocks -/

theorem length_block_word (hbuf : buf.length = 2 * w) (hw : 8 ∣ w) (i : Fin 16) :
    ((buf.drop (w / 8 * i)).take (w / 8)).length = w / 8 := by
  obtain ⟨i, hi⟩ := i
  have hle : w / 8 * (i + 1) ≤ w / 8 * 16 := Nat.mul_le_mul_left _ hi
  rw [Nat.mul_succ] at hle
  rw [List.length_take, List.length_drop]
  show min (w / 8) (buf.length - w / 8 * i) = w / 8
  omega

theorem length_hostBytes {m : ℕ} (ws : Vector (BitVec w) m) : (hostBytes host ws).length = m * (w / 8) := by
  rw [hostBytes, List.length_flatMap]
  simp

theorem length_mdProcessBuffer (h : alg.Lawful) (c : PHashContext w n) :
    (mdProcessBuffer host alg c).buf.length = 2 * w := by
  have hdvd := h.dvd
  rw [mdProcessBuffer]
  dsimp only
  rw [length_hostBytes]
  omega

/-- The block that is processed has the bytes of the buffer. -/
theorem hash_mdProcessBuffer (h : alg.Lawful) (hbuf : c.buf.length = 2 * w) :
    (mdProcessBuffer host alg c).hash = alg.step c.hash c.buf := by
  have hdata : mdSwapBytes host alg (hostWords host c.buf) 16 = hostWords alg.order c.buf := by
    refine Vector.ext fun i hi => ?_
    rw [mdSwapBytes, Vector.getElem_mapIdx, hostWords, hostWords, Vector.getElem_ofFn, Vector.getElem_ofFn]
    simp only [hi, true_and]
    exact h.swap_word host (length_block_word hbuf h.dvd ⟨i, hi⟩)
  rw [mdProcessBuffer]
  dsimp only
  rw [hdata, MdAlgorithm.step]

/-- The context is a block buffer: `hash` is what the blocks change. -/
def mdBlockBuffer (h : alg.Lawful) :
    BlockBuffer UInt8 (Vector (BitVec w) n) (BitVec w × BitVec w × Bool) (PHashContext w n) (2 * w) where
  buf := PHashContext.buf
  put c buf := { c with buf := buf }
  state := PHashContext.hash
  other c := (c.len_high, c.len_low, c.flag)
  process := mdProcessBuffer host alg
  step := alg.step
  pos := h.pos
  buf_put _ _ := rfl
  state_put _ _ := rfl
  other_put _ _ := rfl
  length_process c _ := length_mdProcessBuffer host h c
  state_process c hbuf := hash_mdProcessBuffer host h hbuf
  other_process c := by
    rw [mdProcessBuffer]

/-! ## One call of `update` -/

/-- The context has taken in `message` since it was reset. -/
structure Absorbed (alg : MdAlgorithm w n) (flag : Bool) (message : List UInt8) (c : PHashContext w n) : Prop where
  flag_eq : c.flag = flag
  buf_length : c.buf.length = 2 * w
  hash_eq : c.hash = chain alg.step (2 * w) (alg.init flag) message (message.length / (2 * w))
  buf_eq : c.buf.take (message.length % (2 * w)) = message.drop (2 * w * (message.length / (2 * w)))
  len_eq : c.len_high.toNat * 2 ^ w + c.len_low.toNat = message.length % 2 ^ (2 * w)

theorem Absorbed.left_eq (h : alg.Lawful) (ha : Absorbed alg flag message c) :
    (c.len_low &&& BitVec.ofNat w (2 * w - 1)).toNat = message.length % (2 * w) := by
  have hlow := c.len_low.isLt
  have hlen := ha.len_eq
  rw [h.left_eq]
  rcases h.width with rfl | rfl <;> omega

/-- A number of two digits in base `b`, plus a digit. -/
theorem two_digits_add {b high low total len : ℕ} (hb : 0 < b) (hlen : high * b + low = total % (b * b)) :
    (total + len) % (b * b) = (high + (low + len) / b) % b * b + (low + len) % b := by
  have hsum : high * b + low + len = low + len + b * high := by
    rw [Nat.mul_comm, Nat.add_assoc, Nat.add_comm]
  rw [Nat.add_mod, ← hlen, Nat.add_mod_mod, hsum, Nat.mod_mul, Nat.add_mul_mod_self_left,
    Nat.add_mul_div_left _ _ hb, Nat.add_comm _ high, Nat.mul_comm b, Nat.add_comm]

/-- The counters advance by the length. -/
theorem counter_add (hw : 0 < w) {high low : BitVec w} {total len : ℕ}
    (hlen : high.toNat * 2 ^ w + low.toNat = total % 2 ^ (2 * w)) (hlt : len < 2 ^ w) :
    (if low + BitVec.ofNat w len < BitVec.ofNat w len then high + 1 else high).toNat * 2 ^ w +
      (low + BitVec.ofNat w len).toNat = (total + len) % 2 ^ (2 * w) := by
  have hlow := low.isLt
  have hsum : (low + BitVec.ofNat w len).toNat = (low.toNat + len) % 2 ^ w := by
    rw [BitVec.toNat_add, BitVec.toNat_ofNat, Nat.mod_eq_of_lt hlt]
  have hcarry : low + BitVec.ofNat w len < BitVec.ofNat w len ↔ (low.toNat + len) % 2 ^ w < len := by
    rw [BitVec.lt_def, hsum, BitVec.toNat_ofNat, Nat.mod_eq_of_lt hlt]
  have hone : (high + 1).toNat = (high.toNat + 1) % 2 ^ w := by
    rw [BitVec.toNat_add, show (1 : BitVec w).toNat = 1 from BitVec.toNat_one hw]
  rw [Nat.two_mul, Nat.pow_add] at hlen ⊢
  rw [two_digits_add (Nat.two_pow_pos w) hlen, hsum]
  by_cases hle : 2 ^ w ≤ low.toNat + len
  · have hdiv : (low.toNat + len) / 2 ^ w = 1 := Nat.div_eq_of_lt_le (by omega) (by omega)
    have hmod : (low.toNat + len) % 2 ^ w = low.toNat + len - 2 ^ w := by
      rw [Nat.mod_eq_sub_mod hle, Nat.mod_eq_of_lt (by omega)]
    rw [if_pos (hcarry.2 (by omega)), hone, hdiv]
  · have hdiv : (low.toNat + len) / 2 ^ w = 0 := Nat.div_eq_of_lt (by omega)
    have hmod : (low.toNat + len) % 2 ^ w = low.toNat + len := Nat.mod_eq_of_lt (by omega)
    rw [if_neg fun hc => absurd (hcarry.1 hc) (by omega), hdiv, Nat.add_zero, Nat.mod_eq_of_lt high.isLt]

/-- The context with the length of the data added to its counters. -/
def mdCount (c : PHashContext w n) (len : BitVec w) : PHashContext w n :=
  { c with
    len_low := c.len_low + len
    len_high := if c.len_low + len < len then c.len_high + 1 else c.len_high }

theorem blockStep_mdBlockBuffer (h : alg.Lawful) :
    (mdBlockBuffer host h).blockStep = mdUpdateStep host alg := rfl

theorem updateRest_mdBlockBuffer (h : alg.Lawful) (c : PHashContext w n) (data : List UInt8) (left : ℕ) :
    (mdBlockBuffer host h).updateRest c data left = (do
      let (data, c) ← (loop (mdUpdateStep host alg) (data.length + 1) data).run c
      if data.length > 0 then
        let buf ← memcpyAt c.buf left data
        return { c with buf := buf }
      else
        return c) := by
  rw [BlockBuffer.updateRest, blockStep_mdBlockBuffer]
  rfl

/-- `update` counts the data and passes them to the block buffer. -/
theorem mdUpdate_eq (h : alg.Lawful) (c : PHashContext w n) (data : List UInt8) {left : ℕ}
    (hleft : (c.len_low &&& BitVec.ofNat w (2 * w - 1)).toNat = left) :
    mdUpdate host alg c data = (mdBlockBuffer host h).update (mdCount c (BitVec.ofNat w data.length)) data left
      (left ≠ 0 ∧ (BitVec.ofNat w data.length).toNat ≥ 2 * w - left) := by
  subst hleft
  rw [mdUpdate, BlockBuffer.update]
  by_cases hfill : (c.len_low &&& BitVec.ofNat w (2 * w - 1)).toNat ≠ 0 ∧
      (BitVec.ofNat w data.length).toNat ≥ 2 * w - (c.len_low &&& BitVec.ofNat w (2 * w - 1)).toNat
  · simp only [if_pos hfill, updateRest_mdBlockBuffer]
    rfl
  · simp only [if_neg hfill, updateRest_mdBlockBuffer]
    rfl

/-- `update` does not write outside the buffer, however long the data are. -/
theorem mdUpdate_other (h : alg.Lawful) (hbuf : c.buf.length = 2 * w) (data : List UInt8) :
    ∃ c', mdUpdate host alg c data = some c' ∧ c'.buf.length = 2 * w ∧
      (mdBlockBuffer host h).other c' = (mdBlockBuffer host h).other (mdCount c (BitVec.ofNat w data.length)) := by
  generalize hleft : (c.len_low &&& BitVec.ofNat w (2 * w - 1)).toNat = left
  have hlt : left < 2 * w := by
    rw [← hleft, h.left_eq]
    exact Nat.mod_lt _ h.pos
  have hdvd : 2 * w ∣ 2 ^ w := by rcases h.width with rfl | rfl <;> decide
  have hlen : (BitVec.ofNat w data.length).toNat = data.length % 2 ^ w := BitVec.toNat_ofNat ..
  have hle := Nat.mod_le data.length (2 ^ w)
  have hrest : data.length % (2 * w) ≤ data.length % 2 ^ w := by
    rw [← Nat.mod_mod_of_dvd _ hdvd]
    exact Nat.mod_le ..
  have hrest' := Nat.mod_lt data.length h.pos
  obtain ⟨c', hupdate, hbuf', hother⟩ := update_total (B := mdBlockBuffer host h)
    (c := mdCount c (BitVec.ofNat w data.length)) hbuf data hlt
    (left ≠ 0 ∧ (BitVec.ofNat w data.length).toNat ≥ 2 * w - left) (fun hfill => by omega) (fun hfill => by omega)
  exact ⟨c', (mdUpdate_eq host h c data hleft).trans hupdate, hbuf', hother⟩

theorem mdUpdate_total (h : alg.Lawful) (hbuf : c.buf.length = 2 * w) (data : List UInt8) :
    ∃ c', mdUpdate host alg c data = some c' ∧ c'.buf.length = 2 * w ∧ c'.flag = c.flag := by
  obtain ⟨c', hupdate, hbuf', hother⟩ := mdUpdate_other host h hbuf data
  exact ⟨c', hupdate, hbuf', congrArg (fun o => o.2.2) hother⟩

/-- **One call of `update`.** -/
theorem mdUpdate_absorbed (data : List UInt8) (h : alg.Lawful) (ha : Absorbed alg flag message c)
    (hdata : data.length < 2 ^ w) :
    ∃ c', mdUpdate host alg c data = some c' ∧ Absorbed alg flag (message ++ data) c' := by
  have hlen : (BitVec.ofNat w data.length).toNat = data.length := by
    rw [BitVec.toNat_ofNat, Nat.mod_eq_of_lt hdata]
  have hcount := counter_add (by have := h.pos; omega) ha.len_eq hdata
  rw [← List.length_append] at hcount
  have htaken : (mdBlockBuffer host h).TakenIn (alg.init flag) message (mdCount c (BitVec.ofNat w data.length)) :=
    ⟨ha.buf_length, ha.hash_eq, ha.buf_eq⟩
  obtain ⟨c', hupdate, ⟨hbuf, hhash, hrest⟩, hother⟩ := update_takenIn htaken data rfl
    (message.length % (2 * w) ≠ 0 ∧ (BitVec.ofNat w data.length).toNat ≥ 2 * w - message.length % (2 * w))
    (by rw [hlen])
  have hhigh : c'.len_high = (mdCount c (BitVec.ofNat w data.length)).len_high := congrArg Prod.fst hother
  have hlow : c'.len_low = (mdCount c (BitVec.ofNat w data.length)).len_low := congrArg (fun o => o.2.1) hother
  have hflag : c'.flag = c.flag := congrArg (fun o => o.2.2) hother
  refine ⟨c', (mdUpdate_eq host h c data (ha.left_eq h)).trans hupdate, hflag.trans ha.flag_eq, hbuf, hhash,
    hrest, ?_⟩
  rw [hhigh, hlow]
  exact hcount

end Plibsys
