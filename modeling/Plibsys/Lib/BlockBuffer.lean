/-
  Processing a stream in blocks, with a buffer for the block that is not full yet.

  `BlockBuffer` is a context with such a buffer and a function that processes the block in it.
  `update` takes in one piece of the stream; a context that has taken in `xs` has the chain over
  the full blocks of `xs` as its state and the rest of `xs` at the start of its buffer
  (`TakenIn`), however the stream is cut (`update_takenIn`).
-/
import Plibsys.Lib.Blocks
import Plibsys.Lib.Loop

namespace Blocks

open Looping

variable {α β γ C : Type} {n : ℕ}

/-- Copy `src` to position `pos` of a buffer; it fails beyond the end of the buffer. -/
def copyAt (buf : List α) (pos : ℕ) (src : List α) : Option (List α) :=
  if pos + src.length ≤ buf.length then some (buf.take pos ++ src ++ buf.drop (pos + src.length)) else none

/-- A context `C` with a buffer of `n` elements, a state `β` that the blocks change, and other
    data `γ` that they leave alone. -/
structure BlockBuffer (α β γ C : Type) (n : ℕ) where
  buf : C → List α
  put : C → List α → C
  state : C → β
  other : C → γ
  /-- process the block in the buffer -/
  process : C → C
  step : β → List α → β
  pos : 0 < n
  buf_put : ∀ c xs, buf (put c xs) = xs
  state_put : ∀ c xs, state (put c xs) = state c
  other_put : ∀ c xs, other (put c xs) = other c
  length_process : ∀ c, (buf c).length = n → (buf (process c)).length = n
  state_process : ∀ c, (buf c).length = n → state (process c) = step (state c) (buf c)
  other_process : ∀ c, other (process c) = other c

variable (B : BlockBuffer α β γ C n)

namespace BlockBuffer

/-- One full block of the data goes through the buffer. -/
def blockStep (data : List α) : StateT C Option (Iter (List α) (List α)) := fun c =>
  if data.length ≥ n then do
    let buf ← copyAt (B.buf c) 0 (data.take n)
    return (.next (data.drop n), B.process (B.put c buf))
  else
    return (.done data, c)

/-- The full blocks are processed, the rest of the data goes behind the `left` elements in the
    buffer. -/
def updateRest (c : C) (data : List α) (left : ℕ) : Option C := do
  let (data, c) ← (loop B.blockStep (data.length + 1) data).run c
  if data.length > 0 then
    let buf ← copyAt (B.buf c) left data
    return B.put c buf
  else
    return c

/-- Take in `data` with `left` elements in the buffer; `fills` says that they get a full block. -/
def update (c : C) (data : List α) (left : ℕ) (fills : Prop) [Decidable fills] : Option C :=
  if fills then do
    let buf ← copyAt (B.buf c) left (data.take (n - left))
    B.updateRest (B.process (B.put c buf)) (data.drop (n - left)) 0
  else
    B.updateRest c data left

/-- The context has taken in `xs`, from the state `a`. -/
structure TakenIn (a : β) (xs : List α) (c : C) : Prop where
  length_buf : (B.buf c).length = n
  state_eq : B.state c = chain B.step n a xs (xs.length / n)
  buf_eq : (B.buf c).take (xs.length % n) = xs.drop (n * (xs.length / n))

end BlockBuffer

open BlockBuffer

variable {B} {c c' : C} {buf data src rest xs : List α} {a : β} {k left : ℕ}

theorem copyAt_eq (h : k + src.length ≤ buf.length) :
    copyAt buf k src = some (buf.take k ++ src ++ buf.drop (k + src.length)) := if_pos h

theorem copyAt_block (hbuf : buf.length = n) (hsrc : src.length = n) : copyAt buf 0 src = some src := by
  rw [copyAt_eq (by omega), List.drop_of_length_le (by omega)]
  simp

/-! ## The loop over the full blocks -/

theorem run_blockStep_eq (hbuf : (B.buf c).length = n) (hdata : n ≤ data.length) :
    (B.blockStep data).run c = some (.next (data.drop n), B.process (B.put c (data.take n))) := by
  simp only [StateT.run, BlockBuffer.blockStep]
  rw [if_pos hdata, copyAt_block hbuf (List.length_take_of_le hdata)]
  rfl

theorem run_blockStep (hbuf : (B.buf c).length = n) (hdata : n ≤ data.length) :
    ∃ c', (B.blockStep data).run c = some (.next (data.drop n), c') ∧ (B.buf c').length = n ∧
      B.state c' = B.step (B.state c) (data.take n) ∧ B.other c' = B.other c := by
  have hlen : (B.buf (B.put c (data.take n))).length = n := by rw [B.buf_put, List.length_take_of_le hdata]
  refine ⟨B.process (B.put c (data.take n)), run_blockStep_eq hbuf hdata, B.length_process _ hlen, ?_, ?_⟩
  · rw [B.state_process _ hlen, B.buf_put, B.state_put]
  · rw [B.other_process, B.other_put]

/-- After `j` iterations `k + j` blocks are processed. -/
theorem iters_blockStep (hbuf : (B.buf c).length = n) (hk : xs.length = n * k)
    (hstate : B.state c = chain B.step n a xs k) {j : ℕ} (hj : n * j ≤ data.length) :
    ∃ c', Iters B.blockStep j (data, c) (data.drop (n * j), c') ∧ (B.buf c').length = n ∧
      B.state c' = chain B.step n a (xs ++ data) (k + j) ∧ B.other c' = B.other c ∧ (j = 0 → c' = c) := by
  induction j with
  | zero =>
    refine ⟨c, .refl, hbuf, ?_, rfl, fun _ => rfl⟩
    rw [Nat.add_zero, chain_append (Nat.le_of_eq hk.symm), ← hstate]
  | succ j ih =>
    rw [Nat.mul_succ] at hj
    obtain ⟨c₁, hi, hlen, hstate₁, hother, -⟩ := ih (by omega)
    have hrest : n ≤ (data.drop (n * j)).length := by
      rw [List.length_drop]
      omega
    obtain ⟨c', hstep, hlen', hstate', hother'⟩ := run_blockStep (B := B) hlen hrest
    have hblock : block n (xs ++ data) (k + j) = (data.drop (n * j)).take n := by
      rw [block, Nat.mul_add, ← hk, List.drop_length_add_append]
    refine ⟨c', hi.trans (.one ?_), hlen', ?_, hother'.trans hother, by omega⟩
    · rw [hstep, List.drop_drop, Nat.mul_succ]
    · rw [hstate', hstate₁, ← hblock]
      rfl

/-- The loop ends. -/
theorem run_blockStep_done (hn : data.length < n) : (B.blockStep data).run c = some (.done data, c) := by
  simp only [StateT.run, BlockBuffer.blockStep, if_neg (Nat.not_le_of_lt hn)]
  rfl

theorem length_drop_blocks (hn : 0 < n) (data : List α) : (data.drop (n * (data.length / n))).length < n := by
  rw [List.length_drop, ← Nat.mod_eq_sub]
  exact Nat.mod_lt _ hn

/-- The blocks of `data` are processed; with less than a block, nothing happens. -/
theorem loop_blockStep (hbuf : (B.buf c).length = n) (hk : xs.length = n * k)
    (hstate : B.state c = chain B.step n a xs k) (data : List α) :
    ∃ c', (loop B.blockStep (data.length + 1) data).run c = some (data.drop (n * (data.length / n)), c') ∧
      (B.buf c').length = n ∧ B.state c' = chain B.step n a (xs ++ data) (k + data.length / n) ∧
      B.other c' = B.other c ∧ (data.length < n → c' = c) := by
  obtain ⟨c', hi, hlen, hstate', hother, hzero⟩ := iters_blockStep hbuf hk hstate (Nat.mul_div_le data.length n)
  exact ⟨c', loop_eq hi (run_blockStep_done (length_drop_blocks B.pos data))
    (Nat.lt_succ_of_le (Nat.div_le_self _ _)), hlen,
    hstate', hother, fun hlt => hzero (Nat.div_eq_of_lt hlt)⟩

/-- The last block is what the loop leaves in the buffer. -/
theorem loop_blockStep_last (hbuf : (B.buf c).length = n) (hdata : n ≤ data.length) :
    ∃ c₀, (loop B.blockStep (data.length + 1) data).run c = some (data.drop (n * (data.length / n)),
      B.process (B.put c₀ (block n data (data.length / n - 1)))) := by
  have hq := Nat.div_pos hdata B.pos
  obtain ⟨q, hq⟩ := Nat.exists_eq_succ_of_ne_zero (Nat.pos_iff_ne_zero.1 hq)
  have hle := Nat.mul_div_le data.length n
  have hdrop := length_drop_blocks B.pos data
  have hcount := Nat.div_le_self data.length n
  rw [hq, Nat.mul_succ] at hle
  rw [hq] at hdrop hcount
  have hnil : ([] : List α).length = n * 0 := rfl
  obtain ⟨c₀, hi, hlen, -⟩ := iters_blockStep hbuf hnil (a := B.state c) rfl (show n * q ≤ data.length by omega)
  have hrest : n ≤ (data.drop (n * q)).length := by
    rw [List.length_drop]
    omega
  have hstep := run_blockStep_eq (B := B) hlen hrest
  rw [List.drop_drop, ← Nat.mul_succ] at hstep
  rw [hq]
  exact ⟨c₀, loop_eq (hi.trans (.one hstep)) (run_blockStep_done hdrop) (Nat.lt_succ_of_le hcount)⟩

/-! ## The rest of the data -/

/-- The last copy puts the data behind the elements that wait in the buffer. -/
theorem copyRest_eq (rest data : List α) (hbuf : buf.length = n) (hrest : buf.take rest.length = rest)
    (hle : rest.length + data.length ≤ n) :
    ∃ buf', (if data.length > 0 then copyAt buf rest.length data else some buf) = some buf' ∧
      buf'.length = n ∧ buf'.take (rest.length + data.length) = rest ++ data := by
  by_cases hpos : data.length > 0
  · refine ⟨rest ++ data ++ buf.drop (rest.length + data.length), ?_, ?_, ?_⟩
    · rw [if_pos hpos, copyAt_eq (by omega), hrest]
    · rw [List.length_append, List.length_append, List.length_drop]
      omega
    · rw [← List.length_append, List.take_left]
  · have hnil : data = [] := List.length_eq_zero_iff.1 (by omega)
    subst hnil
    exact ⟨buf, if_neg hpos, hbuf, by simpa using hrest⟩

theorem updateRest_of_loop (hloop : (loop B.blockStep (data.length + 1) data).run c = some (rest, c'))
    (hcopy : (if rest.length > 0 then copyAt (B.buf c') left rest else some (B.buf c')) = some buf) :
    ∃ c'', B.updateRest c data left = some c'' ∧ B.buf c'' = buf ∧ B.state c'' = B.state c' ∧
      B.other c'' = B.other c' := by
  rw [BlockBuffer.updateRest, hloop]
  show ∃ c'', (if rest.length > 0 then (copyAt (B.buf c') left rest).bind fun buf => some (B.put c' buf)
    else some c') = some c'' ∧ _
  by_cases hpos : rest.length > 0
  · rw [if_pos hpos] at hcopy ⊢
    rw [hcopy]
    exact ⟨_, rfl, B.buf_put .., B.state_put .., B.other_put ..⟩
  · rw [if_neg hpos] at hcopy ⊢
    exact ⟨_, rfl, Option.some.inj hcopy, rfl, rfl⟩

/-- What was taken in is full blocks and the elements that wait in the buffer. -/
theorem BlockBuffer.TakenIn.split (h : B.TakenIn a xs c) :
    ∃ full rest, full ++ rest = xs ∧ full.length = n * (xs.length / n) ∧ rest.length = xs.length % n ∧
      B.state c = chain B.step n a full (xs.length / n) ∧ (B.buf c).take rest.length = rest := by
  let k := xs.length / n
  have hsplit : xs.take (n * k) ++ xs.drop (n * k) = xs := List.take_append_drop ..
  have hfull : (xs.take (n * k)).length = n * k := List.length_take_of_le (Nat.mul_div_le _ _)
  have hrest : (xs.drop (n * k)).length = xs.length % n := by rw [List.length_drop, Nat.mod_eq_sub]
  refine ⟨_, _, hsplit, hfull, hrest, ?_, ?_⟩
  · have happend : chain B.step n a (xs.take (n * k) ++ xs.drop (n * k)) k = _ :=
      chain_append (Nat.le_of_eq hfull.symm)
    rw [← happend, hsplit]
    exact h.state_eq
  · rw [hrest]
    exact h.buf_eq

theorem updateRest_takenIn (h : B.TakenIn a xs c) (data : List α) (hleft : left = xs.length % n)
    (hshort : left = 0 ∨ left + data.length < n) :
    ∃ c', B.updateRest c data left = some c' ∧ B.TakenIn a (xs ++ data) c' ∧ B.other c' = B.other c := by
  have hpos := B.pos
  obtain ⟨full, rest, rfl, hfull, hrest, hstate, hbuf⟩ := h.split
  rw [← hrest] at hleft
  subst hleft
  generalize (full ++ rest).length / n = k at hfull hstate
  obtain ⟨c₀, hloop, hlen₀, hstate₀, hother₀, hsame⟩ := loop_blockStep h.length_buf hfull hstate data
  rcases hshort with hnil | hlt
  · -- all the full blocks of the data are processed
    obtain rfl := List.length_eq_zero_iff.1 hnil
    have htotal : full ++ [] ++ data = full ++ data := by rw [List.append_nil]
    have hq : (full ++ data).length / n = k + data.length / n := by
      rw [List.length_append, hfull, Nat.mul_add_div hpos]
    have hmod : (full ++ data).length % n = data.length % n := by
      rw [List.length_append, hfull, Nat.mul_add_mod]
    have hdrop : (data.drop (n * (data.length / n))).length = data.length % n := by
      rw [List.length_drop, Nat.mod_eq_sub]
    obtain ⟨buf, hcopy, hlen, htake⟩ := copyRest_eq [] (data.drop (n * (data.length / n)))
      hlen₀ rfl (by rw [hdrop, List.length_nil, Nat.zero_add]; exact Nat.le_of_lt (Nat.mod_lt _ hpos))
    obtain ⟨c', hupdate, rfl, hstate', hother⟩ := updateRest_of_loop hloop hcopy
    rw [List.length_nil, Nat.zero_add, hdrop] at htake
    refine ⟨c', hupdate, ⟨hlen, ?_, ?_⟩, hother.trans hother₀⟩
    · rw [hstate', hstate₀, htotal, hq]
    · rw [htotal, hmod, htake, hq, Nat.mul_add, ← hfull, List.drop_length_add_append]
      rfl
  · -- there is no full block
    have hzero : data.length / n = 0 := Nat.div_eq_of_lt (by omega)
    have hlength : (full ++ rest ++ data).length = n * k + (rest.length + data.length) := by
      rw [List.length_append, List.length_append, hfull, Nat.add_assoc]
    have hq : (full ++ rest ++ data).length / n = k := by
      rw [hlength, Nat.mul_add_div hpos, Nat.div_eq_of_lt hlt, Nat.add_zero]
    have hmod : (full ++ rest ++ data).length % n = rest.length + data.length := by
      rw [hlength, Nat.mul_add_mod, Nat.mod_eq_of_lt hlt]
    obtain rfl : c₀ = c := hsame (by omega)
    rw [hzero, Nat.mul_zero, List.drop_zero] at hloop
    obtain ⟨buf, hcopy, hlen, htake⟩ := copyRest_eq rest data h.length_buf hbuf (Nat.le_of_lt hlt)
    obtain ⟨c', hupdate, rfl, hstate', hother⟩ := updateRest_of_loop hloop hcopy
    refine ⟨c', hupdate, ⟨hlen, ?_, ?_⟩, hother⟩
    · rw [hstate', hstate, hq, List.append_assoc, chain_append (Nat.le_of_eq hfull.symm)]
    · rw [hmod, htake, hq, ← hfull, List.drop_append_of_le_length (by simp), List.drop_left]

/-- The last full block stays in front of the rest, if the rest goes behind `left` elements. -/
theorem updateRest_last (hbuf : (B.buf c).length = n) (hdata : n ≤ data.length)
    (hfits : left + data.length % n ≤ n) :
    ∃ c₀ c', B.updateRest c data left = some c' ∧ (B.buf c').take (left + data.length % n) =
      (B.buf (B.process (B.put c₀ (block n data (data.length / n - 1))))).take left ++ data.drop
      (n * (data.length / n)) := by
  obtain ⟨c₀, hloop⟩ := loop_blockStep_last hbuf hdata
  have hblock : (block n data (data.length / n - 1)).length = n := by
    have hq := Nat.div_pos hdata B.pos
    refine length_block ?_
    rw [Nat.sub_add_cancel hq]
    exact Nat.mul_div_le _ _
  have hlen : (B.buf (B.process (B.put c₀ (block n data (data.length / n - 1))))).length = n :=
    B.length_process _ (by rw [B.buf_put, hblock])
  have hrest : (data.drop (n * (data.length / n))).length = data.length % n := by
    rw [List.length_drop, Nat.mod_eq_sub]
  refine ⟨c₀, ?_⟩
  generalize B.process (B.put c₀ (block n data (data.length / n - 1))) = c₁ at hloop hlen ⊢
  have htake : ((B.buf c₁).take left).length = left := List.length_take_of_le (by omega)
  obtain ⟨buf, hcopy, -, hfront⟩ := copyRest_eq ((B.buf c₁).take left) (data.drop (n * (data.length / n))) hlen
    (by rw [htake]) (by rw [htake, hrest]; exact hfits)
  rw [htake] at hcopy
  obtain ⟨c', hupdate, rfl, -⟩ := updateRest_of_loop hloop hcopy
  rw [htake, hrest] at hfront
  exact ⟨c', hupdate, hfront⟩

/-! ## One piece of the stream -/

/-- What waits in the buffer is what was taken in before. -/
theorem takenIn_pending (hbuf : (B.buf c).length = n) (hlt : left < n) :
    B.TakenIn (B.state c) ((B.buf c).take left) c := by
  have hlen : ((B.buf c).take left).length = left := List.length_take_of_le (by omega)
  refine ⟨hbuf, ?_, ?_⟩
  · rw [hlen, Nat.div_eq_of_lt hlt]
    rfl
  · rw [hlen, Nat.div_eq_of_lt hlt, Nat.mod_eq_of_lt hlt]
    rfl

/-- The buffer is filled up and processed. -/
theorem fill_takenIn (h : B.TakenIn a xs c) (src : List α) (hleft : left = xs.length % n)
    (hsrc : left + src.length = n) :
    ∃ buf, copyAt (B.buf c) left src = some buf ∧ B.TakenIn a (xs ++ src) (B.process (B.put c buf)) ∧
      B.other (B.process (B.put c buf)) = B.other c := by
  obtain ⟨full, rest, rfl, hfull, hrest, hstate, hbuf⟩ := h.split
  rw [← hrest] at hleft
  subst hleft
  generalize (full ++ rest).length / n = k at hfull hstate
  have hlen := h.length_buf
  have hfilled : (rest ++ src).length = n := by rw [List.length_append, hsrc]
  have hput : (B.buf (B.put c (rest ++ src))).length = n := by rw [B.buf_put, hfilled]
  have hlength : (full ++ rest ++ src).length = n * (k + 1) := by
    rw [List.append_assoc, List.length_append, hfull, hfilled, Nat.mul_succ]
  have hq : (full ++ rest ++ src).length / n = k + 1 := by rw [hlength, Nat.mul_div_cancel_left _ B.pos]
  have hmod : (full ++ rest ++ src).length % n = 0 := by rw [hlength, Nat.mul_mod_right]
  refine ⟨rest ++ src, ?_, ⟨B.length_process _ hput, ?_, ?_⟩, ?_⟩
  · rw [copyAt_eq (by omega), hbuf, List.drop_of_length_le (by omega), List.append_nil]
  · have hsucc := chain_succ (f := B.step) (a := a) hfull hfilled []
    rw [List.append_nil, ← List.append_assoc] at hsucc
    rw [B.state_process _ hput, B.buf_put, B.state_put, hstate, hq, hsucc]
  · rw [hmod, List.take_zero, hq, ← hlength, List.drop_length]
  · rw [B.other_process, B.other_put]

/-- **One call of `update`**, when it knows how much waits in the buffer and when the data fill it. -/
theorem update_takenIn (h : B.TakenIn a xs c) (data : List α) (hleft : left = xs.length % n) (fills : Prop)
    [Decidable fills] (hfills : fills ↔ left ≠ 0 ∧ n - left ≤ data.length) :
    ∃ c', B.update c data left fills = some c' ∧ B.TakenIn a (xs ++ data) c' ∧ B.other c' = B.other c := by
  have hlt : left < n := hleft ▸ Nat.mod_lt _ B.pos
  rw [BlockBuffer.update]
  by_cases hfill : fills
  · obtain ⟨hne, hle⟩ := hfills.1 hfill
    have htake : left + (data.take (n - left)).length = n := by
      rw [List.length_take_of_le hle]
      omega
    have hblocks : (xs ++ data.take (n - left)).length % n = 0 := by
      rw [List.length_append, ← Nat.mod_add_mod, ← hleft, htake, Nat.mod_self]
    obtain ⟨buf, hcopy, htaken, hother⟩ := fill_takenIn h _ hleft htake
    obtain ⟨c', hupdate, htaken', hother'⟩ :=
      updateRest_takenIn htaken (data.drop (n - left)) hblocks.symm (.inl rfl)
    rw [List.append_assoc, List.take_append_drop] at htaken'
    refine ⟨c', ?_, htaken', hother'.trans hother⟩
    rw [if_pos hfill, hcopy]
    exact hupdate
  · have hshort : left = 0 ∨ left + data.length < n := by
      by_cases hzero : left = 0
      · exact .inl hzero
      · have hnot : ¬ n - left ≤ data.length := fun hle => hfill (hfills.2 ⟨hzero, hle⟩)
        exact .inr (by omega)
    rw [if_neg hfill]
    exact updateRest_takenIn h data hleft hshort

/-! ## Nothing is written outside the buffer -/

theorem updateRest_total (hbuf : (B.buf c).length = n) (data : List α) (left : ℕ)
    (hfits : left + data.length % n ≤ n) :
    ∃ c', B.updateRest c data left = some c' ∧ (B.buf c').length = n ∧ B.other c' = B.other c := by
  have hnil : ([] : List α).length = n * 0 := rfl
  obtain ⟨c₀, hloop, hlen₀, -, hother₀, -⟩ := loop_blockStep hbuf hnil (a := B.state c) rfl data
  have hrest : (data.drop (n * (data.length / n))).length = data.length % n := by
    rw [List.length_drop, Nat.mod_eq_sub]
  have htake : ((B.buf c₀).take left).length = left := List.length_take_of_le (by omega)
  obtain ⟨buf, hcopy, hlen, -⟩ := copyRest_eq ((B.buf c₀).take left) (data.drop (n * (data.length / n))) hlen₀
    (by rw [htake]) (by rw [htake, hrest]; exact hfits)
  rw [htake] at hcopy
  obtain ⟨c', hupdate, rfl, -, hother⟩ := updateRest_of_loop hloop hcopy
  exact ⟨c', hupdate, hlen, hother.trans hother₀⟩

/-- `update` stays inside the buffer if the data that it does not fill up with fit behind what waits
    there. -/
theorem update_total (hbuf : (B.buf c).length = n) (data : List α) (hlt : left < n) (fills : Prop)
    [Decidable fills]
    (hfill : fills → n - left ≤ data.length) (hfits : ¬ fills → left + data.length % n ≤ n) :
    ∃ c', B.update c data left fills = some c' ∧ (B.buf c').length = n ∧ B.other c' = B.other c := by
  rw [BlockBuffer.update]
  by_cases hf : fills
  · have htake : (data.take (n - left)).length = n - left := List.length_take_of_le (hfill hf)
    have hcopy : copyAt (B.buf c) left (data.take (n - left)) = _ := copyAt_eq (by omega)
    generalize hbuf' : (B.buf c).take left ++ data.take (n - left) ++
      (B.buf c).drop (left + (data.take (n - left)).length) = buf' at hcopy
    have hlen : buf'.length = n := by
      rw [← hbuf', List.length_append, List.length_append, List.length_take, List.length_drop]
      omega
    have hprocess := B.length_process (B.put c buf') (by rw [B.buf_put, hlen])
    have hmod := Nat.mod_lt (data.drop (n - left)).length B.pos
    obtain ⟨c', hupdate, hlen', hother⟩ := updateRest_total hprocess (data.drop (n - left)) 0 (by omega)
    refine ⟨c', ?_, hlen', ?_⟩
    · rw [if_pos hf, hcopy]
      exact hupdate
    · rw [hother, B.other_process, B.other_put]
  · rw [if_neg hf]
    exact updateRest_total hbuf data left (hfits hf)

end Blocks
