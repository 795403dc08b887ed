/-
  GOST R 34.11-94 in chunks.

  The context is a block buffer with a counter of eight words.  The blocks change the hash value
  and the sum; `gost3411Digest` is the hash of a message, and `gost3411Stream_eq` says that
  chunks are hashed like it.
-/
import Plibsys.Crypto.Gost3411
import Plibsys.Crypto.MdStream
import Plibsys.Lib.WordSum

namespace Plibsys

open Looping Bytes Blocks WordSum

/-! ## The hash of a message -/

/-- A block changes the hash value and the sum. -/
def gost3411Step (s : Vector puint32 8 × Vector puint32 8) (bs : List UInt8) :
    Vector puint32 8 × Vector puint32 8 :=
  let data := gost3411Words .little bs
  (ppCryptoHashGost3411Process s.1 data, ppCryptoHashGost3411Sum256 s.2 data)

/-- Zeros up to the end of a block. -/
def gost3411Padding (len : ℕ) : List UInt8 := List.replicate ((32 - len % 32) % 32) 0

/-- The blocks of the padded message, then the number of bits and the sum as two more blocks. -/
def gost3411Digest (message : List UInt8) : List UInt8 :=
  let padded := message ++ gost3411Padding message.length
  let (hash, sum) := chain gost3411Step 32 (Vector.replicate 8 0, Vector.replicate 8 0) padded (padded.length / 32)
  let hash := ppCryptoHashGost3411Process hash (gost3411Words .little (toBytes .little 32 (8 * message.length)))
  hostBytes .little (ppCryptoHashGost3411Process hash sum)

variable (host : ByteOrder) {ctx : PHashGOST3411} {buf data message : List UInt8}

/-! ## Words -/

theorem length_gost3411Word (hbuf : buf.length = 32) (i : Fin 8) : ((buf.drop (4 * i.val)).take 4).length = 4 := by
  rw [List.length_take, List.length_drop]
  omega

theorem swapBytes_gost3411Words (hbuf : buf.length = 32) :
    ppCryptoHashGost3411SwapBytes host (gost3411Words host buf) = gost3411Words .little buf := by
  cases host with
  | little => rfl
  | big =>
    refine Vector.ext fun i hi => ?_
    have hlen : ((buf.drop (4 * i)).take 4).length = 4 := length_gost3411Word hbuf ⟨i, hi⟩
    rw [ppCryptoHashGost3411SwapBytes, if_pos rfl, Vector.getElem_map, gost3411Words, gost3411Words,
      Vector.getElem_ofFn, Vector.getElem_ofFn, pUint32SwapBytes_eq]
    exact reverseBytes_word (by decide) hlen (by decide)

theorem hostBytes_swapBytes (hash : Vector puint32 8) :
    hostBytes host (ppCryptoHashGost3411SwapBytes host hash) = hostBytes .little hash := by
  cases host with
  | little => rfl
  | big =>
    rw [ppCryptoHashGost3411SwapBytes, if_pos rfl, hostBytes, hostBytes, Vector.toList_map, List.flatMap_map]
    congr 1
    funext v
    rw [pUint32SwapBytes_eq]
    exact bytes_reverseBytes (by decide) v (by decide)

/-- The sum of 256 bits is the sum of eight words. -/
theorem toList_sum256 (a b : Vector puint32 8) :
    (ppCryptoHashGost3411Sum256 a b).toList = addWords a.toList b.toList false := by
  obtain ⟨⟨as⟩, ha⟩ := a
  obtain ⟨⟨bs⟩, hb⟩ := b
  match as, ha, bs, hb with
  | [_, _, _, _, _, _, _, _], _, [_, _, _, _, _, _, _, _], _ => rfl

/-! ## The counter -/

/-- The length in bits, as `update` adds it. -/
def gost3411Len256 (len : puint64) : Vector puint32 8 :=
  #v[(len <<< 3).setWidth 32, (len >>> 29).setWidth 32, 0, 0, 0, 0, 0, 0]

theorem number_len256 {len : ℕ} (hlen : len < 2 ^ 32) :
    number (gost3411Len256 (BitVec.ofNat 64 len)).toList = 8 * len ∧
      ∀ b ∈ (gost3411Len256 (BitVec.ofNat 64 len)).toList.tail, b ≠ BitVec.allOnes 32 := by
  have hnat : (BitVec.ofNat 64 len).toNat = len := by
    rw [BitVec.toNat_ofNat]
    omega
  have hlow : ((BitVec.ofNat 64 len <<< 3).setWidth 32).toNat = 8 * len % 2 ^ 32 := by
    rw [BitVec.toNat_setWidth, BitVec.toNat_shiftLeft, hnat, Nat.shiftLeft_eq]
    omega
  have hhigh : ((BitVec.ofNat 64 len >>> 29).setWidth 32).toNat = 8 * len / 2 ^ 32 := by
    rw [BitVec.toNat_setWidth, BitVec.toNat_ushiftRight, hnat, Nat.shiftRight_eq_div_pow]
    omega
  constructor
  · have hzero : number [(0 : puint32), 0, 0, 0, 0, 0] = 0 := by decide
    show number ((BitVec.ofNat 64 len <<< 3).setWidth 32 :: (BitVec.ofNat 64 len >>> 29).setWidth 32 ::
      [(0 : puint32), 0, 0, 0, 0, 0]) = _
    rw [number_cons, number_cons, hzero, hlow, hhigh]
    omega
  · intro b hb hones
    have hb : b = (BitVec.ofNat 64 len >>> 29).setWidth 32 ∨ b = 0 := by
      simpa [gost3411Len256] using hb
    subst hones
    rcases hb with hb | hb
    · rw [← hb] at hhigh
      rw [BitVec.toNat_allOnes] at hhigh
      omega
    · exact absurd hb (by decide)

/-- Short data are counted. -/
theorem number_count {len : ℕ} (hlen : len < 2 ^ 32) {total : ℕ} {words : Vector puint32 8}
    (hwords : number words.toList = 8 * total % 2 ^ 256) :
    number (ppCryptoHashGost3411Sum256 words (gost3411Len256 (BitVec.ofNat 64 len))).toList =
      8 * (total + len) % 2 ^ 256 := by
  obtain ⟨hnumber, hones⟩ := number_len256 hlen
  have hkeeps : KeepsCarry words.toList (gost3411Len256 (BitVec.ofNat 64 len)).toList false := by
    obtain ⟨⟨as⟩, has⟩ := words
    match as, has with
    | a :: as, _ => exact keepsCarry_cons hones
  rw [toList_sum256, number_addWords (by decide) (by simp) hkeeps, hwords, hnumber, Vector.length_toList]
  show (8 * total % 2 ^ 256 + 8 * len + 0) % 2 ^ 256 = _
  rw [Nat.add_zero, Nat.mod_add_mod, Nat.mul_add]

/-- The first word of the counter is the position in the buffer. -/
theorem gost3411Left_eq {total : ℕ} {words : Vector puint32 8}
    (hwords : number words.toList = 8 * total % 2 ^ 256) :
    (words[0]! &&& 0xFF).toNat = 8 * (total % 32) := by
  have hfirst : words[0]!.toNat = 8 * total % 2 ^ 256 % 2 ^ 32 := by
    rw [← hwords]
    obtain ⟨⟨as⟩, has⟩ := words
    match as, has with
    | a :: as, _ =>
      show a.toNat = number (a :: as) % 2 ^ 32
      rw [number_cons, Nat.add_mul_mod_self_left, Nat.mod_eq_of_lt a.isLt]
  have hmask : (words[0]! &&& 0xFF).toNat = words[0]!.toNat % 2 ^ 8 := by
    rw [BitVec.toNat_and]
    exact Nat.and_two_pow_sub_one_eq_mod _ 8
  rw [hmask, hfirst]
  omega

/-! ## One call of `update` -/

theorem length_gost3411ProcessBuffer (ctx : PHashGOST3411) : (gost3411ProcessBuffer host ctx).buf.length = 32 := by
  rw [gost3411ProcessBuffer]
  dsimp only
  rw [length_hostBytes]

theorem state_gost3411ProcessBuffer (hbuf : ctx.buf.length = 32) :
    ((gost3411ProcessBuffer host ctx).hash, (gost3411ProcessBuffer host ctx).sum) =
      gost3411Step (ctx.hash, ctx.sum) ctx.buf := by
  rw [gost3411ProcessBuffer, swapBytes_gost3411Words host hbuf, gost3411Step]

/-- The context is a block buffer. -/
def gost3411BlockBuffer :
    BlockBuffer UInt8 (Vector puint32 8 × Vector puint32 8) (Vector puint32 8) PHashGOST3411 32 where
  buf := PHashGOST3411.buf
  put ctx buf := { ctx with buf := buf }
  state ctx := (ctx.hash, ctx.sum)
  other := PHashGOST3411.len
  process := gost3411ProcessBuffer host
  step := gost3411Step
  pos := by decide
  buf_put _ _ := rfl
  state_put _ _ := rfl
  other_put _ _ := rfl
  length_process ctx _ := length_gost3411ProcessBuffer host ctx
  state_process _ hbuf := state_gost3411ProcessBuffer host hbuf
  other_process ctx := by rw [gost3411ProcessBuffer]

theorem blockStep_gost3411BlockBuffer : (gost3411BlockBuffer host).blockStep = gost3411UpdateStep host := rfl

theorem updateRest_gost3411BlockBuffer (ctx : PHashGOST3411) (data : List UInt8) (left : ℕ) :
    (gost3411BlockBuffer host).updateRest ctx data left = (do
      let (data, ctx) ← (loop (gost3411UpdateStep host) (data.length + 1) data).run ctx
      if data.length > 0 then
        let buf ← memcpyAt ctx.buf left data
        return { ctx with buf := buf }
      else
        return ctx) := by
  rw [BlockBuffer.updateRest, blockStep_gost3411BlockBuffer]
  rfl

/-- The context with the length of the data added to its counter. -/
def gost3411Count (ctx : PHashGOST3411) (len : puint64) : PHashGOST3411 :=
  { ctx with len := ppCryptoHashGost3411Sum256 ctx.len (gost3411Len256 len) }

/-- `update` counts the data and passes them to the block buffer. -/
theorem pCryptoHashGost3411Update_eq (ctx : PHashGOST3411) (data : List UInt8) {left : ℕ}
    (hleft : ((ctx.len[0]! &&& 0xFF) >>> 3).toNat = left) :
    pCryptoHashGost3411Update host ctx data = (gost3411BlockBuffer host).update
      (gost3411Count ctx (BitVec.ofNat 64 data.length)) data left
      (left ≠ 0 ∧ ((BitVec.ofNat 64 data.length).setWidth 32).toNat ≥ 32 - left) := by
  subst hleft
  rw [pCryptoHashGost3411Update, BlockBuffer.update]
  by_cases hfill : ((ctx.len[0]! &&& 0xFF) >>> 3).toNat ≠ 0 ∧
      ((BitVec.ofNat 64 data.length).setWidth 32).toNat ≥ 32 - ((ctx.len[0]! &&& 0xFF) >>> 3).toNat
  · simp only [if_pos hfill, updateRest_gost3411BlockBuffer]
    rfl
  · simp only [if_neg hfill, updateRest_gost3411BlockBuffer]
    rfl

/-- The context has taken in `message` since it was reset. -/
structure GostAbsorbed (message : List UInt8) (ctx : PHashGOST3411) : Prop where
  buf_length : ctx.buf.length = 32
  state_eq : (ctx.hash, ctx.sum) =
    chain gost3411Step 32 (Vector.replicate 8 0, Vector.replicate 8 0) message (message.length / 32)
  buf_eq : ctx.buf.take (message.length % 32) = message.drop (32 * (message.length / 32))
  len_eq : number ctx.len.toList = 8 * message.length % 2 ^ 256

theorem gost3411Left_lt (word : puint32) : ((word &&& 0xFF) >>> 3).toNat < 32 := by
  have hmask : (word &&& 0xFF).toNat = word.toNat % 2 ^ 8 := by
    rw [BitVec.toNat_and]
    exact Nat.and_two_pow_sub_one_eq_mod _ 8
  rw [BitVec.toNat_ushiftRight, hmask, Nat.shiftRight_eq_div_pow]
  omega

/-- `update` does not write outside the buffer, however long the data are. -/
theorem pCryptoHashGost3411Update_other (hbuf : ctx.buf.length = 32) (data : List UInt8) :
    ∃ ctx', pCryptoHashGost3411Update host ctx data = some ctx' ∧ ctx'.buf.length = 32 ∧
      ctx'.len = ppCryptoHashGost3411Sum256 ctx.len (gost3411Len256 (BitVec.ofNat 64 data.length)) := by
  generalize hleft : ((ctx.len[0]! &&& 0xFF) >>> 3).toNat = left
  have hlt : left < 32 := hleft ▸ gost3411Left_lt ctx.len[0]!
  have hlen : ((BitVec.ofNat 64 data.length).setWidth 32).toNat = data.length % 2 ^ 32 := by
    rw [BitVec.toNat_setWidth, BitVec.toNat_ofNat]
    omega
  obtain ⟨ctx', hupdate, hbuf', hother⟩ := update_total (B := gost3411BlockBuffer host)
    (c := gost3411Count ctx (BitVec.ofNat 64 data.length)) hbuf data hlt
    (left ≠ 0 ∧ ((BitVec.ofNat 64 data.length).setWidth 32).toNat ≥ 32 - left)
    (fun hfill => by omega) (fun hfill => by omega)
  exact ⟨ctx', (pCryptoHashGost3411Update_eq host ctx data hleft).trans hupdate, hbuf', hother⟩

theorem pCryptoHashGost3411Update_total (hbuf : ctx.buf.length = 32) (data : List UInt8) :
    ∃ ctx', pCryptoHashGost3411Update host ctx data = some ctx' ∧ ctx'.buf.length = 32 := by
  obtain ⟨ctx', hupdate, hbuf', -⟩ := pCryptoHashGost3411Update_other host hbuf data
  exact ⟨ctx', hupdate, hbuf'⟩

/-- **One call of `update`.** -/
theorem pCryptoHashGost3411Update_absorbed (data : List UInt8) (ha : GostAbsorbed message ctx)
    (hdata : data.length < 2 ^ 32) :
    ∃ ctx', pCryptoHashGost3411Update host ctx data = some ctx' ∧ GostAbsorbed (message ++ data) ctx' := by
  have hlen : ((BitVec.ofNat 64 data.length).setWidth 32).toNat = data.length := by
    rw [BitVec.toNat_setWidth, BitVec.toNat_ofNat]
    omega
  have hleft : ((ctx.len[0]! &&& 0xFF) >>> 3).toNat = message.length % 32 := by
    rw [BitVec.toNat_ushiftRight, gost3411Left_eq ha.len_eq, Nat.shiftRight_eq_div_pow]
    omega
  have htaken : (gost3411BlockBuffer host).TakenIn (Vector.replicate 8 0, Vector.replicate 8 0) message
      (gost3411Count ctx (BitVec.ofNat 64 data.length)) := ⟨ha.buf_length, ha.state_eq, ha.buf_eq⟩
  obtain ⟨ctx', hupdate, ⟨hbuf, hstate, hrest⟩, hother⟩ := update_takenIn htaken data rfl
    (message.length % 32 ≠ 0 ∧ ((BitVec.ofNat 64 data.length).setWidth 32).toNat ≥ 32 - message.length % 32)
    (by rw [hlen])
  refine ⟨ctx', (pCryptoHashGost3411Update_eq host ctx data hleft).trans hupdate, hbuf, hstate, hrest, ?_⟩
  have hcount : ctx'.len =
    ppCryptoHashGost3411Sum256 ctx.len (gost3411Len256 (BitVec.ofNat 64 data.length)) := hother
  rw [hcount, number_count hdata ha.len_eq, List.length_append]

/-! ## The digest -/

theorem flatMap_bytes (words : List puint32) :
    words.flatMap (bytes .little) = toBytes .little (4 * words.length) (number words) := by
  induction words with
  | nil => rfl
  | cons v words ih =>
    have hlow : toBytes .little 4 (v.toNat + 2 ^ 32 * number words) = bytes .little v := by
      refine (bytes_of_toNat (o := .little) (w := 32) (v := v) (by decide) ?_).symm
      rw [Nat.add_mul_mod_self_left, Nat.mod_eq_of_lt v.isLt]
    have hrest : (v.toNat + 2 ^ 32 * number words) / 256 ^ 4 = number words := by
      have := v.isLt
      omega
    rw [List.flatMap_cons, ih, number_cons, List.length_cons, Nat.mul_succ, Nat.add_comm (4 * words.length),
      toBytes_little_add, hlow, hrest]

/-- The words of a number that is known modulo `2 ^ 256`. -/
theorem gost3411Words_number {x : ℕ} (words : Vector puint32 8) (hwords : number words.toList = x % 2 ^ 256) :
    gost3411Words .little (toBytes .little 32 x) = words := by
  have hbytes : toBytes .little 32 x = words.toList.flatMap (bytes .little) := by
    rw [flatMap_bytes, hwords, Vector.length_toList, ← toBytes_mod x, show 256 ^ 32 = 2 ^ 256 by norm_num]
  refine Vector.ext fun i hi => ?_
  have hblock : block 4 (words.toList.flatMap (bytes .little)) i = bytes .little words[i] := by
    have hlen : ∀ v : puint32, (bytes .little v).length = 4 := fun _ => length_bytes
    rw [block_flatMap hlen (by rwa [Vector.length_toList]), Vector.getElem_toList]
  rw [gost3411Words, Vector.getElem_ofFn, hbytes]
  show word .little 32 (block 4 (words.toList.flatMap (bytes .little)) i) = words[i]
  rw [hblock, word_bytes (by decide)]

/-- The last block is filled up with zeros, if it is not full. -/
theorem gost3411Pad_takenIn (ha : GostAbsorbed message ctx) {last : ℕ} (hlast : last = 32 - message.length % 32) :
    ∃ ctx', (if last % 32 ≠ 0 then
        (memcpyAt ctx.buf (message.length % 32) (List.replicate last 0)).bind fun buf =>
          some (gost3411ProcessBuffer host { ctx with buf := buf })
      else some ctx) = some ctx' ∧
      (gost3411BlockBuffer host).TakenIn (Vector.replicate 8 0, Vector.replicate 8 0)
        (message ++ gost3411Padding message.length) ctx' ∧ ctx'.len = ctx.len := by
  have htaken : (gost3411BlockBuffer host).TakenIn (Vector.replicate 8 0, Vector.replicate 8 0) message ctx :=
    ⟨ha.buf_length, ha.state_eq, ha.buf_eq⟩
  have hmod := Nat.mod_lt message.length (show 32 > 0 by decide)
  by_cases hzero : message.length % 32 = 0
  · have hpadding : message ++ gost3411Padding message.length = message := by
      rw [gost3411Padding, hzero, List.replicate_zero, List.append_nil]
    rw [if_neg (by omega), hpadding]
    exact ⟨ctx, rfl, htaken, rfl⟩
  · have hpadding : gost3411Padding message.length = List.replicate last 0 := by
      rw [gost3411Padding, ← hlast, Nat.mod_eq_of_lt (by omega)]
    obtain ⟨buf, hcopy, htaken', hother⟩ := fill_takenIn htaken (List.replicate last 0) rfl
      (by rw [List.length_replicate]; omega)
    have hcopy : memcpyAt ctx.buf (message.length % 32) (List.replicate last 0) = some buf := hcopy
    rw [if_pos (by omega), hcopy, hpadding]
    exact ⟨_, rfl, htaken', hother⟩

/-- **`finish` leaves the digest of the message.** -/
theorem pCryptoHashGost3411Finish_digest (ha : GostAbsorbed message ctx) :
    ∃ ctx', pCryptoHashGost3411Finish host ctx = some ctx' ∧
      pCryptoHashGost3411Digest host ctx' = gost3411Digest message := by
  obtain ⟨ctx₁, hpad, ⟨-, hstate, -⟩, hlen⟩ := gost3411Pad_takenIn host ha rfl
  have hleft : (ctx.len[0]! &&& 0xFF).toNat / 8 = message.length % 32 := by
    rw [gost3411Left_eq ha.len_eq, Nat.mul_div_cancel_left _ (by decide)]
  have hbits : gost3411Words .little (toBytes .little 32 (8 * message.length)) = ctx₁.len :=
    gost3411Words_number ctx₁.len (by rw [hlen, ha.len_eq])
  have hstate : (ctx₁.hash, ctx₁.sum) = chain gost3411Step 32 (Vector.replicate 8 0, Vector.replicate 8 0)
      (message ++ gost3411Padding message.length)
      ((message ++ gost3411Padding message.length).length / 32) := hstate
  have hfinish : pCryptoHashGost3411Finish host ctx = some { ctx₁ with
      hash := ppCryptoHashGost3411SwapBytes host
        (ppCryptoHashGost3411Process (ppCryptoHashGost3411Process ctx₁.hash ctx₁.len) ctx₁.sum) } := by
    rw [pCryptoHashGost3411Finish]
    simp only [hleft]
    by_cases hfull : (32 - message.length % 32) % 32 ≠ 0
    · rw [if_pos hfull] at hpad ⊢
      obtain ⟨buf, hcopy, hprocess⟩ := Option.bind_eq_some_iff.1 hpad
      rw [hcopy, ← Option.some.inj hprocess]
      rfl
    · rw [if_neg hfull] at hpad ⊢
      rw [← Option.some.inj hpad]
      rfl
  refine ⟨_, hfinish, ?_⟩
  rw [pCryptoHashGost3411Digest, hostBytes_swapBytes, gost3411Digest, hbits]
  simp only [← hstate]

theorem pCryptoHashGost3411Finish_total (hbuf : ctx.buf.length = 32) :
    ∃ ctx', pCryptoHashGost3411Finish host ctx = some ctx' ∧ ctx'.buf.length = 32 := by
  have hlt : (ctx.len[0]! &&& 0xFF).toNat / 8 < 32 := by
    have := gost3411Left_lt ctx.len[0]!
    rwa [BitVec.toNat_ushiftRight, Nat.shiftRight_eq_div_pow] at this
  rw [pCryptoHashGost3411Finish]
  dsimp only
  generalize (ctx.len[0]! &&& 0xFF).toNat / 8 = left at hlt ⊢
  by_cases hfull : (32 - left) % 32 ≠ 0
  · rw [if_pos hfull, memcpyAt, if_pos (by rw [List.length_replicate]; omega)]
    exact ⟨_, rfl, length_gost3411ProcessBuffer host _⟩
  · rw [if_neg hfull]
    exact ⟨_, rfl, hbuf⟩

theorem pCryptoHashGost3411Reset_absorbed (ctx : PHashGOST3411) :
    GostAbsorbed [] (pCryptoHashGost3411Reset ctx) where
  buf_length := List.length_replicate
  state_eq := rfl
  buf_eq := rfl
  len_eq := rfl

theorem pCryptoHashGost3411Updates_absorbed (ha : GostAbsorbed message ctx) {chunks : List (List UInt8)}
    (hchunks : ∀ chunk ∈ chunks, chunk.length < 2 ^ 32) :
    ∃ ctx', chunks.foldlM (pCryptoHashGost3411Update host) ctx = some ctx' ∧
      GostAbsorbed (message ++ chunks.flatten) ctx' := by
  induction chunks generalizing message ctx with
  | nil => exact ⟨ctx, rfl, by rwa [List.flatten_nil, List.append_nil]⟩
  | cons chunk chunks ih =>
    obtain ⟨ctx₁, hupdate, ha₁⟩ :=
      pCryptoHashGost3411Update_absorbed host chunk ha (hchunks chunk List.mem_cons_self)
    obtain ⟨ctx', hrest, ha'⟩ := ih ha₁ fun d hd => hchunks d (List.mem_cons_of_mem _ hd)
    refine ⟨ctx', ?_, ?_⟩
    · rw [List.foldlM_cons, hupdate]
      exact hrest
    · rwa [List.flatten_cons, ← List.append_assoc]

/-- One update for each chunk, `finish`, and the digest. -/
def gost3411Stream (ctx : PHashGOST3411) (chunks : List (List UInt8)) : Option (List UInt8) := do
  let ctx ← chunks.foldlM (pCryptoHashGost3411Update host) ctx
  let ctx ← pCryptoHashGost3411Finish host ctx
  return pCryptoHashGost3411Digest host ctx

theorem gost3411Stream_eq (ha : GostAbsorbed [] ctx) {chunks : List (List UInt8)}
    (hchunks : ∀ chunk ∈ chunks, chunk.length < 2 ^ 32) :
    gost3411Stream host ctx chunks = some (gost3411Digest chunks.flatten) := by
  obtain ⟨ctx₁, hupdates, ha₁⟩ := pCryptoHashGost3411Updates_absorbed host ha hchunks
  obtain ⟨ctx₂, hfinish, hdigest⟩ := pCryptoHashGost3411Finish_digest host ha₁
  rw [gost3411Stream, hupdates]
  show (pCryptoHashGost3411Finish host ctx₁).bind _ = _
  rw [hfinish]
  exact congrArg some hdigest

/-- **The digest does not depend on the chunks**, nor on what the contexts were before they were reset:
    it is that of the whole message. -/
theorem pCryptoHashGost3411_streams (ctx ctx' : PHashGOST3411) (M : List UInt8)
    (chunks chunks' : List (List UInt8))
    (hM : chunks.flatten = M) (hM' : chunks'.flatten = M) (hchunks : ∀ chunk ∈ chunks, chunk.length < 2 ^ 32)
    (hchunks' : ∀ chunk ∈ chunks', chunk.length < 2 ^ 32) :
    gost3411Stream host (pCryptoHashGost3411Reset ctx) chunks = some (gost3411Digest M) ∧
      gost3411Stream host (pCryptoHashGost3411Reset ctx') chunks' = some (gost3411Digest M) := by
  have hstream := gost3411Stream_eq host (pCryptoHashGost3411Reset_absorbed ctx) hchunks
  have hstream' := gost3411Stream_eq host (pCryptoHashGost3411Reset_absorbed ctx') hchunks'
  rw [hM] at hstream
  rw [hM'] at hstream'
  exact ⟨hstream, hstream'⟩

/-- `abc` in one chunk, and in two. -/
theorem pCryptoHashGost3411_streams_abc :
    let M : List UInt8 := [0x61, 0x62, 0x63]
    gost3411Stream .little (pCryptoHashGost3411Reset pCryptoHashGost3411New) [M] = some (gost3411Digest M) ∧
      gost3411Stream .little (pCryptoHashGost3411Reset pCryptoHashGost3411New) [[0x61], [0x62, 0x63]] =
        some (gost3411Digest M) :=
  pCryptoHashGost3411_streams .little _ _ _ [[0x61, 0x62, 0x63]] [[0x61], [0x62, 0x63]] rfl rfl
    (by decide) (by decide)

end Plibsys
