/-
  The padding and the digest.

  `finish` absorbs 0x80 and zeros up to the last two words of a block and puts the length there;
  `mdFinish_digest` says that this is the block function folded over the padded message, and
  `mdStream_eq` is a whole run from a reset context.
-/
import Plibsys.Crypto.MdStream

namespace Plibsys

open Looping Bytes Blocks

variable {w n : ℕ} (host : ByteOrder) {alg : MdAlgorithm w n} {c : PHashContext w n} {flag : Bool}
  {buf data message : List UInt8} {k : ℕ}

/-! ## The last block -/

/-- The two words of the length, as the algorithm orders them. -/
def mdLengthBytes (alg : MdAlgorithm w n) (high low : BitVec w) : List UInt8 :=
  match alg.order with
  | .little => bytes .little low ++ bytes .little high
  | .big => bytes .big high ++ bytes .big low

/-- Words 14 and 15 are not swapped, the others are. -/
theorem mdSwapBytes_set (h : alg.Lawful) (hbuf : buf.length = 2 * w) (u v : BitVec w) :
    mdSwapBytes host alg (((hostWords host buf).set! 14 u).set! 15 v) 14 =
      hostWords alg.order (buf.take (14 * (w / 8)) ++ bytes alg.order u ++ bytes alg.order v) := by
  have hdvd := h.dvd
  have htake : (buf.take (14 * (w / 8))).length = w / 8 * 14 := by
    rw [List.length_take]
    omega
  have hu : (bytes alg.order u).length = w / 8 := length_bytes
  have hv : (bytes alg.order v).length = w / 8 := length_bytes
  refine Vector.ext fun i hi => ?_
  rw [mdSwapBytes, Vector.getElem_mapIdx]
  show _ = (Vector.ofFn fun i : Fin 16 => word alg.order w (block (w / 8) _ i))[i]
  rw [Vector.getElem_ofFn]
  by_cases h14 : i < 14
  · have hle : w / 8 * (i + 1) ≤ (buf.take (14 * (w / 8))).length := htake ▸ Nat.mul_le_mul_left _ h14
    have hsame : block (w / 8) (buf.take (14 * (w / 8))) i = block (w / 8) buf i := by
      conv_rhs => rw [← List.take_append_drop (14 * (w / 8)) buf]
      rw [block_append_left hle]
    rw [Vector.getElem_set!_ne _ (by omega), Vector.getElem_set!_ne _ (by omega), hostWords, Vector.getElem_ofFn,
      List.append_assoc, block_append_left hle, hsame]
    simp only [h14, true_and]
    exact h.swap_word host (length_block_word hbuf hdvd ⟨i, hi⟩)
  · rw [if_neg fun hc => h14 hc.1]
    obtain rfl | rfl : i = 14 ∨ i = 15 := by omega
    · rw [Vector.getElem_set!_ne _ (by omega), Vector.getElem_set!_self, block_append htake hu _, word_bytes hdvd]
    · have hlen : (buf.take (14 * (w / 8)) ++ bytes alg.order u).length = w / 8 * 15 := by
        rw [List.length_append, htake, hu]
        omega
      have hlast := block_append hlen hv []
      rw [List.append_nil] at hlast
      rw [Vector.getElem_set!_self, hlast, word_bytes hdvd]

theorem mdSwapBytes_lengthBlock (h : alg.Lawful) (hbuf : buf.length = 2 * w) (high low : BitVec w) :
    mdSwapBytes host alg (mdLengthBlock host alg high low buf) 14 =
      hostWords alg.order (buf.take (14 * (w / 8)) ++ mdLengthBytes alg high low) := by
  cases ho : alg.order with
  | little =>
    simp only [mdLengthBlock, mdLengthBytes, ho]
    rw [mdSwapBytes_set host h hbuf, ho, List.append_assoc]
  | big =>
    simp only [mdLengthBlock, mdLengthBytes, ho]
    rw [mdSwapBytes_set host h hbuf, ho, List.append_assoc]

/-- The low word of the number of bits. -/
theorem toNat_bitsLow (low : BitVec w) {total : ℕ} (hlow : low.toNat = total % 2 ^ w) :
    (low <<< 3).toNat = 8 * total % 2 ^ w := by
  rw [BitVec.toNat_shiftLeft, Nat.shiftLeft_eq, hlow, Nat.mul_comm, Nat.mul_mod_mod]

/-- The high word takes the three bits that the low word loses. -/
theorem toNat_bitsHigh (hw : 3 ≤ w) (high low : BitVec w) {total : ℕ} (hlow : low.toNat = total % 2 ^ w)
    (hhigh : high.toNat = total / 2 ^ w % 2 ^ w) :
    (high <<< 3 ||| low >>> (w - 3)).toNat = 8 * total / 2 ^ w % 2 ^ w := by
  have hpow : 2 ^ w = 2 ^ 3 * 2 ^ (w - 3) := by
    rw [← Nat.pow_add, Nat.add_sub_cancel' hw]
  have hpos := Nat.two_pow_pos (w - 3)
  have hlt : low.toNat / 2 ^ (w - 3) < 2 ^ 3 := Nat.div_lt_of_lt_mul (by rw [Nat.mul_comm, ← hpow]; exact low.isLt)
  have hbits : 8 * total / 2 ^ w = 8 * (total / 2 ^ w) + low.toNat / 2 ^ (w - 3) := by
    have hcarry : 8 * (total % 2 ^ w) / 2 ^ w = low.toNat / 2 ^ (w - 3) := by
      rw [← hlow, hpow]
      exact Nat.mul_div_mul_left _ _ (by decide)
    conv_lhs => rw [← Nat.div_add_mod total (2 ^ w), Nat.mul_add, Nat.mul_left_comm,
      Nat.mul_add_div (Nat.two_pow_pos w), hcarry]
  rw [BitVec.toNat_or, BitVec.toNat_shiftLeft, BitVec.toNat_ushiftRight, Nat.shiftLeft_eq,
    Nat.shiftRight_eq_div_pow,
    Nat.mul_comm]
  have hshift : 2 ^ 3 * high.toNat % 2 ^ w = 2 ^ 3 * (high.toNat % 2 ^ (w - 3)) := by
    rw [hpow, Nat.mul_mod_mul_left]
  have htotal : 8 * (total / 2 ^ w) % 2 ^ w = 2 ^ 3 * high.toNat % 2 ^ w := by
    rw [hhigh, Nat.mul_mod_mod, show 2 ^ 3 = 8 from rfl]
  have hmod := Nat.mod_lt high.toNat hpos
  have hsum : 2 ^ 3 * (high.toNat % 2 ^ (w - 3)) + low.toNat / 2 ^ (w - 3) < 2 ^ w := by omega
  rw [hbits, ← Nat.mod_add_mod, htotal, hshift, ← Nat.two_pow_add_eq_or_of_lt hlt, Nat.mod_eq_of_lt hsum]

/-- The number of bits, in two words. -/
theorem mdLengthBytes_eq (h : alg.Lawful) {high low : BitVec w} {total : ℕ}
    (hlen : high.toNat * 2 ^ w + low.toNat = total % 2 ^ (2 * w)) :
    mdLengthBytes alg (high <<< 3 ||| low >>> (w - 3)) (low <<< 3) =
      toBytes alg.order (2 * (w / 8)) (8 * total) := by
  have hdvd := h.dvd
  have hpos := h.pos
  rw [Nat.two_mul, Nat.pow_add, Nat.mod_mul, Nat.add_comm, Nat.mul_comm] at hlen
  have hlow : low.toNat = total % 2 ^ w := by
    have := congrArg (· % 2 ^ w) hlen
    simpa [Nat.mod_eq_of_lt low.isLt] using this
  have hhigh : high.toNat = total / 2 ^ w % 2 ^ w := by
    rw [hlow] at hlen
    exact Nat.eq_of_mul_eq_mul_left (Nat.two_pow_pos w) (by omega)
  have hl := toNat_bitsLow low hlow
  have hh := toNat_bitsHigh (by omega) high low hlow hhigh
  rw [mdLengthBytes, Nat.two_mul]
  cases alg.order with
  | little => rw [toBytes_little_add, pow_div_eight hdvd, ← bytes_of_toNat hdvd hl, ← bytes_of_toNat hdvd hh]
  | big => rw [toBytes_big_add, pow_div_eight hdvd, ← bytes_of_toNat hdvd hl, ← bytes_of_toNat hdvd hh]

/-! ## The digest -/

theorem take_swapped (h : alg.Lawful) (words : ℕ) (ws : List (BitVec w)) :
    ((ws.mapIdx fun i val => if i < words ∧ host ≠ alg.order then alg.swap val else val).flatMap
        (bytes host)).take (words * (w / 8)) =
      (ws.flatMap (bytes alg.order)).take (words * (w / 8)) := by
  induction ws generalizing words with
  | nil => rfl
  | cons val ws ih =>
    cases words with
    | zero => simp
    | succ words =>
      have hval : bytes host (if 0 < words + 1 ∧ host ≠ alg.order then alg.swap val else val) =
        bytes alg.order val := by
        simp only [Nat.succ_pos, true_and]
        exact h.bytes_swap host val
      have hlen : (bytes alg.order val).length = w / 8 := length_bytes
      rw [List.mapIdx_cons, List.flatMap_cons, List.flatMap_cons, hval, Nat.succ_mul, Nat.add_comm, ← hlen,
        List.take_length_add_append, List.take_length_add_append, hlen]
      simp only [Nat.add_lt_add_iff_right]
      rw [ih words]

theorem take_hostBytes (h : alg.Lawful) (hash : Vector (BitVec w) n) (words : ℕ) :
    (hostBytes host (mdSwapBytes host alg hash words)).take (words * (w / 8)) =
      (hostBytes alg.order hash).take (words * (w / 8)) := by
  rw [hostBytes, mdSwapBytes, Vector.toList_mapIdx]
  exact take_swapped host h words hash.toList

/-- The bytes that `finish` passes to `update` are the padding up to the length. -/
theorem take_pad {left : ℕ} (hw : 8 ∣ w) (hleft : left < 2 * w) :
    let last := if left < 14 * (w / 8) then 14 * (w / 8) - left else 30 * (w / 8) - left
    (0x80 :: List.replicate (2 * w - 1) (0 : UInt8)).take last =
        0x80 :: List.replicate ((2 * w + 14 * (w / 8) - 1 - left) % (2 * w)) 0 ∧
      last > 0 ∧ last ≤ 2 * w ∧ (left + last) % (2 * w) = 14 * (w / 8) := by
  intro last
  obtain ⟨hzeros, hle, hmod⟩ : last = (2 * w + 14 * (w / 8) - 1 - left) % (2 * w) + 1 ∧ last ≤ 2 * w ∧
      (left + last) % (2 * w) = 14 * (w / 8) := by
    by_cases hlt : left < 14 * (w / 8)
    · have hlast : last = 14 * (w / 8) - left := if_pos hlt
      have hz : (2 * w + 14 * (w / 8) - 1 - left) % (2 * w) = 14 * (w / 8) - 1 - left := by
        rw [show 2 * w + 14 * (w / 8) - 1 - left = 2 * w + (14 * (w / 8) - 1 - left) by omega, Nat.add_mod_left,
          Nat.mod_eq_of_lt (by omega)]
      have hm : (left + last) % (2 * w) = left + last := Nat.mod_eq_of_lt (by omega)
      omega
    · have hlast : last = 30 * (w / 8) - left := if_neg hlt
      have hz : (2 * w + 14 * (w / 8) - 1 - left) % (2 * w) = 2 * w + 14 * (w / 8) - 1 - left :=
        Nat.mod_eq_of_lt (by omega)
      have hm : (left + last) % (2 * w) = left + last - 2 * w := by
        rw [Nat.mod_eq_sub_mod (by omega), Nat.mod_eq_of_lt (by omega)]
      omega
  refine ⟨?_, by omega, hle, hmod⟩
  rw [hzeros, List.take_succ_cons, List.take_replicate, Nat.min_eq_left (by omega)]

theorem mdFinish_eq {left last : ℕ} {c₁ : PHashContext w n}
    (hleft : (c.len_low &&& BitVec.ofNat w (2 * w - 1)).toNat = left)
    (hlast : (if left < 14 * (w / 8) then 14 * (w / 8) - left else 30 * (w / 8) - left) = last) (hpos : last > 0)
    (hupdate : mdUpdate host alg c ((0x80 :: List.replicate (2 * w - 1) 0).take last) = some c₁) :
    let data := mdSwapBytes host alg (mdLengthBlock host alg (c.len_high <<< 3 ||| c.len_low >>> (w - 3))
      (c.len_low <<< 3) c₁.buf) 14
    mdFinish host alg c = some { c₁ with
      buf := hostBytes host data
      hash := mdSwapBytes host alg (alg.process c₁.hash data) (alg.digestWords c₁.flag) } := by
  subst hleft
  intro data
  rw [mdFinish]
  simp only [hlast, if_pos hpos, hupdate]
  rfl

theorem mdFinish_total (h : alg.Lawful) (hbuf : c.buf.length = 2 * w) :
    ∃ c', mdFinish host alg c = some c' ∧ c'.buf.length = 2 * w ∧ c'.flag = c.flag := by
  have hdvd := h.dvd
  obtain ⟨-, hlast, -⟩ := take_pad hdvd (h.left_eq c.len_low ▸ Nat.mod_lt c.len_low.toNat h.pos)
  obtain ⟨c₁, hupdate, -, hflag⟩ := mdUpdate_total host h hbuf _
  refine ⟨_, mdFinish_eq host rfl rfl hlast hupdate, ?_, hflag⟩
  show (hostBytes host _).length = 2 * w
  rw [length_hostBytes]
  omega

/-- The chain over the padded message is one more step than the chain over the blocks before. -/
theorem chain_padded {f : Vector (BitVec w) n → List UInt8 → Vector (BitVec w) n} {a : Vector (BitVec w) n}
    {length : List UInt8} (hw : 0 < 2 * w) (hlen : message.length % (2 * w) + length.length = 2 * w) :
    chain f (2 * w) a (message ++ length) ((message ++ length).length / (2 * w)) =
      f (chain f (2 * w) a message (message.length / (2 * w)))
        (message.drop (2 * w * (message.length / (2 * w))) ++ length) := by
  have hsplit := Nat.div_add_mod message.length (2 * w)
  have hblocks : (message ++ length).length / (2 * w) = message.length / (2 * w) + 1 := by
    rw [List.length_append]
    exact Nat.div_eq_of_eq_mul_right hw (by rw [Nat.mul_succ]; omega)
  have hrest : message.drop (2 * w * (message.length / (2 * w))) ++ length =
      block (2 * w) (message ++ length) (message.length / (2 * w)) := by
    rw [block, List.drop_append_of_le_length (by omega), List.take_of_length_le]
    rw [List.length_append, List.length_drop]
    omega
  rw [hblocks, chain, chain_append (by omega), hrest]

/-- **`finish` leaves the digest of the message.** -/
theorem mdFinish_digest (h : alg.Lawful) (ha : Absorbed alg flag message c) :
    ∃ c', mdFinish host alg c = some c' ∧ c'.flag = flag ∧ c'.buf.length = 2 * w ∧
      (mdDigest host c').take (alg.digestWords flag * (w / 8)) = alg.digest flag message := by
  have hpos := h.pos
  have hdvd := h.dvd
  have hwide : 2 * w < 2 ^ w := by rcases h.width with rfl | rfl <;> decide
  obtain ⟨hzeros, hlast, hle, hmod⟩ := take_pad hdvd (Nat.mod_lt message.length hpos)
  generalize hlast' : (if message.length % (2 * w) < 14 * (w / 8) then 14 * (w / 8) - message.length % (2 * w)
    else 30 * (w / 8) - message.length % (2 * w)) = last at hzeros hlast hle hmod
  let pad : List UInt8 := (0x80 :: List.replicate (2 * w - 1) 0).take last
  have hpad : pad.length = last := by
    refine List.length_take_of_le ?_
    rw [List.length_cons, List.length_replicate]
    omega
  obtain ⟨c₁, hupdate, ha₁⟩ := mdUpdate_absorbed host pad h ha (by omega)
  have hmod₁ : (message ++ pad).length % (2 * w) = 14 * (w / 8) := by
    rw [List.length_append, hpad, ← Nat.mod_add_mod, hmod]
  let bits := toBytes alg.order (2 * (w / 8)) (8 * message.length)
  have hbits : bits.length = 2 * (w / 8) := length_toBytes
  have hpadded : message ++ alg.padding message.length = message ++ pad ++ bits := by
    rw [MdAlgorithm.padding, ← hzeros, List.append_assoc]
  have hdata := mdSwapBytes_lengthBlock host h ha₁.buf_length (c.len_high <<< 3 ||| c.len_low >>> (w - 3))
    (c.len_low <<< 3)
  rw [mdLengthBytes_eq h ha.len_eq, ← hmod₁, ha₁.buf_eq] at hdata
  refine ⟨_, mdFinish_eq host (ha.left_eq h) hlast' hlast hupdate, ha₁.flag_eq, ?_, ?_⟩
  · show (hostBytes host _).length = 2 * w
    rw [length_hostBytes]
    omega
  · have hhash : chain alg.step (2 * w) (alg.init flag) (message ++ pad ++ bits)
        ((message ++ pad ++ bits).length / (2 * w)) = alg.process c₁.hash (mdSwapBytes host alg
          (mdLengthBlock host alg (c.len_high <<< 3 ||| c.len_low >>> (w - 3)) (c.len_low <<< 3) c₁.buf) 14) := by
      rw [chain_padded hpos (by omega), hdata, ha₁.hash_eq]
      rfl
    rw [MdAlgorithm.digest, hpadded, hhash, ha₁.flag_eq]
    exact take_hostBytes host h _ _

/-! ## A length that is cut to nothing -/

/-- The bytes of the chain over a list of blocks. -/
def MdAlgorithm.digestBlocks (alg : MdAlgorithm w n) (flag : Bool) (padded : List UInt8) : List UInt8 :=
  (hostBytes alg.order (chain alg.step (2 * w) (alg.init flag) padded (padded.length / (2 * w)))).take
    (alg.digestWords flag * (w / 8))

theorem MdAlgorithm.digest_eq_blocks (flag : Bool) (message : List UInt8) :
    alg.digest flag message = alg.digestBlocks flag (message ++ alg.padding message.length) := rfl

/-- The algorithm that starts where the blocks of `data` lead to. -/
def MdAlgorithm.continued (alg : MdAlgorithm w n) (data : List UInt8) : MdAlgorithm w n :=
  { alg with init := fun flag => chain alg.step (2 * w) (alg.init flag) data (data.length / (2 * w)) }

/-- If the counter of the length does not move, the context is like a new one, with another hash
    value to start from. -/
theorem mdUpdate_uncounted (h : alg.Lawful) (ha : Absorbed alg flag [] c) {data : List UInt8}
    (hdata : data.length % 2 ^ w = 0) :
    ∃ c', mdUpdate host alg c data = some c' ∧ Absorbed (alg.continued data) flag [] c' := by
  have hzero : BitVec.ofNat w data.length = 0 := by
    apply BitVec.eq_of_toNat_eq
    rw [BitVec.toNat_ofNat, hdata]
    rfl
  have hcount : mdCount c (BitVec.ofNat w data.length) = c := by
    have hlow : c.len_low + 0 = c.len_low := BitVec.add_zero _
    have hnot : ¬ c.len_low < 0 := BitVec.not_lt_zero
    rw [hzero, mdCount, hlow, if_neg hnot]
  have htaken : (mdBlockBuffer host h).TakenIn (alg.init flag) [] (mdCount c (BitVec.ofNat w data.length)) := by
    rw [hcount]
    exact ⟨ha.buf_length, ha.hash_eq, ha.buf_eq⟩
  obtain ⟨c', hupdate, ⟨hbuf, hhash, -⟩, hother⟩ := update_takenIn htaken data rfl
    (0 ≠ 0 ∧ (BitVec.ofNat w data.length).toNat ≥ 2 * w - 0) (by simp)
  rw [hcount] at hother
  have hhigh : c'.len_high = c.len_high := congrArg Prod.fst hother
  have hlow : c'.len_low = c.len_low := congrArg (fun o => o.2.1) hother
  have hflag : c'.flag = c.flag := congrArg (fun o => o.2.2) hother
  refine ⟨c', ?_, hflag.trans ha.flag_eq, hbuf, ?_, by simp, ?_⟩
  · rw [mdUpdate_eq host h c data (ha.left_eq h)]
    simpa using hupdate
  · rw [List.nil_append] at hhash
    rw [List.length_nil, Nat.zero_div]
    exact hhash
  · rw [hhigh, hlow]
    exact ha.len_eq

/-- **The digest has the padding of the empty message** behind the data. -/
theorem mdFinish_uncounted (h : alg.Lawful) {data : List UInt8} (hdata : data.length % 2 ^ w = 0)
    (ha : Absorbed (alg.continued data) flag [] c) :
    ∃ c', mdFinish host alg c = some c' ∧
      (mdDigest host c').take (alg.digestWords flag * (w / 8)) =
        alg.digestBlocks flag (data ++ alg.padding 0) := by
  have hlawful : (alg.continued data).Lawful := ⟨h.width, h.swap_eq⟩
  obtain ⟨c', hfinish, -, -, hdigest⟩ := mdFinish_digest host hlawful ha
  refine ⟨c', hfinish, hdigest.trans ?_⟩
  have hdvd : 2 * w ∣ data.length :=
    Nat.dvd_trans (by rcases h.width with rfl | rfl <;> decide) (Nat.dvd_of_mod_eq_zero hdata)
  have hsplit : data.length = 2 * w * (data.length / (2 * w)) := (Nat.mul_div_cancel' hdvd).symm
  have hblocks : (data ++ alg.padding 0).length / (2 * w) =
      data.length / (2 * w) + (alg.padding 0).length / (2 * w) := by
    rw [List.length_append, Nat.add_div_of_dvd_right hdvd]
  rw [MdAlgorithm.digestBlocks, hblocks, chain_add hsplit]
  rfl

/-! ## From the reset to the digest -/

theorem mdReset_absorbed : Absorbed alg c.flag [] (mdReset alg c) where
  flag_eq := rfl
  buf_length := List.length_replicate
  hash_eq := by rw [List.length_nil, Nat.zero_div]; rfl
  buf_eq := by simp
  len_eq := by simp [mdReset]

theorem mdNew_absorbed (flag : Bool) : Absorbed alg flag [] (mdNew alg flag) :=
  mdReset_absorbed (c := ⟨List.replicate (2 * w) 0, Vector.replicate n 0, 0, 0, flag⟩)

/-- The updates of a list of chunks. -/
theorem mdUpdates_absorbed (h : alg.Lawful) (ha : Absorbed alg flag message c) {chunks : List (List UInt8)}
    (hchunks : ∀ chunk ∈ chunks, chunk.length < 2 ^ w) :
    ∃ c', chunks.foldlM (mdUpdate host alg) c = some c' ∧ Absorbed alg flag (message ++ chunks.flatten) c' := by
  induction chunks generalizing message c with
  | nil => exact ⟨c, rfl, by rwa [List.flatten_nil, List.append_nil]⟩
  | cons chunk chunks ih =>
    obtain ⟨c₁, hupdate, ha₁⟩ := mdUpdate_absorbed host chunk h ha (hchunks chunk List.mem_cons_self)
    obtain ⟨c', hrest, ha'⟩ := ih ha₁ fun d hd => hchunks d (List.mem_cons_of_mem _ hd)
    refine ⟨c', ?_, ?_⟩
    · rw [List.foldlM_cons, hupdate]
      exact hrest
    · rwa [List.flatten_cons, ← List.append_assoc]

/-- One update for each chunk, `finish`, and the digest. -/
def mdStream (alg : MdAlgorithm w n) (c : PHashContext w n) (chunks : List (List UInt8)) :
    Option (List UInt8) := do
  let c ← chunks.foldlM (mdUpdate host alg) c
  let c ← mdFinish host alg c
  return (mdDigest host c).take (alg.digestWords c.flag * (w / 8))

/-- A context that is new, or that is reset whatever its state was, hashes these chunks like the
    whole message. -/
def MdAlgorithm.Streams (alg : MdAlgorithm w n) (flag : Bool) (chunks : List (List UInt8))
    (message : List UInt8) : Prop :=
  mdStream host alg (mdNew alg flag) chunks = some (alg.digest flag message) ∧
    ∀ c, c.flag = flag → mdStream host alg (mdReset alg c) chunks = some (alg.digest flag message)

theorem mdStream_eq (h : alg.Lawful) (ha : Absorbed alg flag [] c) {chunks : List (List UInt8)}
    (hchunks : ∀ chunk ∈ chunks, chunk.length < 2 ^ w) :
    mdStream host alg c chunks = some (alg.digest flag chunks.flatten) := by
  obtain ⟨c₁, hupdates, ha₁⟩ := mdUpdates_absorbed host h ha hchunks
  obtain ⟨c₂, hfinish, hflag, -, hdigest⟩ := mdFinish_digest host h ha₁
  subst hflag
  rw [mdStream, hupdates]
  show (mdFinish host alg c₁).bind _ = _
  rw [hfinish]
  exact congrArg some hdigest

theorem MdAlgorithm.Lawful.streams (h : alg.Lawful) (flag : Bool) {chunks : List (List UInt8)}
    (hchunks : ∀ chunk ∈ chunks, chunk.length < 2 ^ w) (hmessage : chunks.flatten = message) :
    alg.Streams host flag chunks message := by
  subst hmessage
  refine ⟨mdStream_eq host h (mdNew_absorbed flag) hchunks, ?_⟩
  rintro c rfl
  exact mdStream_eq host h mdReset_absorbed hchunks

end Plibsys
