/-
  Copies of any length to and from a shared memory buffer.

  The counters of the copy loops have 32 bits and a read returns a `pint`, while the lengths and the
  positions have 64 bits.
-/
import Mathlib.Data.UInt
import Plibsys.Shm.BufferSpec

namespace Plibsys

open Looping Ring

section
variable {N fuel : ℕ} {buf : PShmBuffer} {s : Segment} {m m' : ShmMem} {storage data : ppointer} {len : psize}

/-! ## The copy loops -/

/-- A counter of 32 bits stays below a bound of 4 GiB. -/
theorem toUInt64_lt (i : puint) {n : psize} (hn : 2 ^ 32 ≤ n.toNat) : i.toUInt64 < n := by
  rw [UInt64.lt_iff_toNat_lt, UInt32.toNat_toUInt64]
  exact Nat.lt_of_lt_of_le i.toNat_lt hn

theorem copyOut_none (read_pos : psize) {to_copy : psize} (hto : 2 ^ 32 ≤ to_copy.toNat) :
    (copyOut fuel buf read_pos to_copy storage).run m = none := by
  exact loop_none (fun i _ => ⟨_, _, if_pos (toUInt64_lt i hto)⟩) fuel 0 m

theorem copyIn_none (write_pos : psize) (hlen : 2 ^ 32 ≤ len.toNat) :
    (copyIn fuel buf write_pos len data).run m = none := by
  exact loop_none (fun i _ => ⟨_, _, if_pos (toUInt64_lt i hlen)⟩) fuel 0 m

/-- The loop makes a round for each byte. -/
theorem copyOut_out (hbuf : buf.size.toNat = N) (read_pos : psize) {to_copy : psize} (hto : to_copy.toNat < 2 ^ 32)
    (hfuel : fuel ≤ to_copy.toNat) : (copyOut fuel buf read_pos to_copy storage).run m = none := by
  obtain ⟨user, hi, -, -⟩ := iters_copyOut (m := m) hbuf read_pos storage hto le_rfl
  exact loop_out hi hfuel

theorem lift_bind_none {α β : Type} {x : StateT ShmMem Option α} (h : x.run m = none) (f : α → ShmM β) :
    ((liftM x : ShmM α) >>= f).run.run m = none := by
  change (ExceptT.lift x >>= f).run.run m = none
  simp [h]

/-! ## What the calls promise -/

/-- Between `m` and `m'` the `k` oldest bytes of the buffer are copied to `storage`, and no others, and the
    read position moves behind them. -/
structure Consumed (N : ℕ) (m m' : ShmMem) (storage : ppointer) (k : ℕ) : Prop where
  le_used : k ≤ m.segment.used N
  copied : bytesAt m'.user storage k = slice N m.segment.data m.segment.read_pos.toNat k
  others : ∀ p, (∀ i < k, p ≠ storage + i) → m'.user p = m.user p
  read_pos : m'.segment.read_pos.toNat = (m.segment.read_pos.toNat + k) % N

/-- A read ends, and it returns the number of bytes that it has copied and consumed. -/
def ReadCounts (buf : PShmBuffer) (m : ShmMem) (storage : ppointer) (len : psize) : Prop :=
  ∃ fuel n m', (pShmBufferRead fuel .success (some buf) storage len).run.run m = some (.ok n, m') ∧
    ∃ k : ℕ, n.toInt = k ∧ Consumed buf.size.toNat m m' storage k

/-- A write ends. -/
def WriteEnds (buf : PShmBuffer) (m : ShmMem) (data : ppointer) (len : psize) : Prop :=
  ∃ fuel n m', (pShmBufferWrite fuel .success (some buf) data len).run.run m = some (.ok n, m')

/-! ## Reads -/

/-- The value of a read is cut to 32 bits. -/
theorem toInt_pint (n : psize) : n.toUInt32.toInt32.toInt = (n.toNat : ℤ).bmod (2 ^ 32) := by
  have h32 : n.toUInt32.toInt32 = Int32.ofNat n.toNat := rfl
  rw [h32, Int32.toInt_ofNat']
  rfl

theorem Segment.Within.used_pos (h : s.Within N) (hne : s.read_pos ≠ s.write_pos) : 0 < s.used N := by
  refine Nat.pos_of_ne_zero fun hzero => hne (UInt64.toNat_inj.1 ?_)
  rw [← h.add_used, hzero, Nat.add_zero, Nat.mod_eq_of_lt h.read_lt]

variable (fuel) in
/-- A read ends after a round for each byte, within 4 GiB. -/
theorem run_pShmBufferRead_none (hbuf : buf.size.toNat = N) (h : m.segment.Within N) (hstorage : storage ≠ NULL)
    (hlen : len ≠ 0) {t : ℕ} (ht : t = min len.toNat (m.segment.used N)) (hpos : 0 < t)
    (hto : t < 2 ^ 32 → fuel ≤ t) : (pShmBufferRead fuel .success (some buf) storage len).run.run m = none := by
  have hnat := (toNat_toCopy hbuf h len).trans ht.symm
  have hne : m.segment.read_pos ≠ m.segment.write_pos := by
    intro heq
    have := h.used_eq_zero heq
    omega
  rw [pShmBufferRead_run fuel hstorage hlen, if_neg hne]
  refine lift_bind_none ?_ _
  rcases Nat.lt_or_ge t (2 ^ 32) with hlt | hge
  · exact copyOut_out hbuf _ (hnat ▸ hlt) (hnat ▸ hto hlt)
  · exact copyOut_none _ (hnat ▸ hge)

/-- A read of less than 4 GiB copies what there is. -/
theorem run_pShmBufferRead_some (hbuf : buf.size.toNat = N) (h : m.segment.Within N) (hstorage : storage ≠ NULL)
    (hlen : len ≠ 0) {t : ℕ} (ht : t = min len.toNat (m.segment.used N)) (hto : t < 2 ^ 32)
    (hfuel : 0 < t → t < fuel) :
    ∃ n m', (pShmBufferRead fuel .success (some buf) storage len).run.run m = some (.ok n, m') ∧
      n.toInt = (t : ℤ).bmod (2 ^ 32) ∧
      m'.segment.read_pos.toNat = (m.segment.read_pos.toNat + t) % 2 ^ 64 % N ∧
      (∀ p, (∀ i < t, p ≠ storage + i) → m'.user p = m.user p) ∧
      (m.segment.read_pos.toNat + t ≤ 2 ^ 64 →
        bytesAt m'.user storage t = slice N m.segment.data m.segment.read_pos.toNat t) := by
  have hr := h.read_lt
  rw [pShmBufferRead_run fuel hstorage hlen]
  split
  next heq =>
    have hzero : t = 0 := by rw [ht, h.used_eq_zero heq, Nat.min_zero]
    subst hzero
    refine ⟨0, m, rfl, rfl, ?_, fun _ _ => rfl, fun _ => rfl⟩
    rw [Nat.add_zero, Nat.mod_eq_of_lt m.segment.read_pos.toNat_lt, Nat.mod_eq_of_lt hr]
  next hne =>
    have hnat := (toNat_toCopy hbuf h len).trans ht.symm
    have hlen' : len.toNat ≠ 0 := fun h0 => hlen (UInt64.toNat_inj.1 h0)
    have hused := h.used_pos hne
    generalize (if ppShmBufferGetUsedSpace buf m.segment ≤ len then ppShmBufferGetUsedSpace buf m.segment
      else len) = to_copy at hnat ⊢
    subst hnat
    obtain ⟨user, hcopy, hframe, hbytes⟩ :=
      run_copyOut (m := m) hbuf m.segment.read_pos storage hto (hfuel (by omega))
    refine ⟨to_copy.toUInt32.toInt32, ⟨{ m.segment with
      read_pos := (m.segment.read_pos + to_copy) % buf.size }, user⟩, ?_, toInt_pint to_copy, ?_, hframe, hbytes⟩
    · rw [lift_bind hcopy]
      rfl
    · rw [UInt64.toNat_mod, UInt64.toNat_add, hbuf]

/-- A position that passes the end of the address space. -/
theorem add_wrapped {r t : ℕ} (hN : N < 2 ^ 64) (hr : r < N) (ht : t < N) (hge : 2 ^ 64 ≤ r + t) :
    (r + t) % 2 ^ 64 % N = r + t - 2 ^ 64 := by
  rw [Nat.mod_eq_sub_mod hge, Nat.mod_eq_of_lt (by omega : r + t - 2 ^ 64 < 2 ^ 64), Nat.mod_eq_of_lt (by omega)]

/-- **A read counts** when it takes less than 2 GiB and does not pass the end of the address space. -/
theorem readCounts_iff (h : m.segment.Within buf.size.toNat) (hstorage : storage ≠ NULL) (hlen : len ≠ 0) :
    ReadCounts buf m storage len ↔ min len.toNat (m.segment.used buf.size.toNat) < 2 ^ 31 ∧
      m.segment.read_pos.toNat + min len.toNat (m.segment.used buf.size.toNat) < 2 ^ 64 := by
  generalize ht : min len.toNat (m.segment.used buf.size.toNat) = t
  have hr := h.read_lt
  have hN := buf.size.toNat_lt
  have hused := h.used_lt
  constructor
  · rintro ⟨fuel, n, m', hrun, k, hk, hconsumed⟩
    have hto : t < 2 ^ 32 ∧ (0 < t → t < fuel) := by
      by_contra hnot
      have hnone := run_pShmBufferRead_none fuel rfl h hstorage hlen ht.symm (by omega) (by omega)
      rw [hnone] at hrun
      cases hrun
    obtain ⟨n', m₁, hrun', hn, hpos, -, -⟩ := run_pShmBufferRead_some rfl h hstorage hlen ht.symm hto.1 hto.2
    rw [hrun'] at hrun
    cases hrun
    have hlt : t < 2 ^ 31 := by
      by_contra hge
      rw [hn, Int.bmod_eq_emod, if_pos (by omega)] at hk
      omega
    refine ⟨hlt, ?_⟩
    have hkt : k = t := by
      rw [hn, Int.bmod_eq_of_le (by omega) (by omega)] at hk
      omega
    subst hkt
    by_contra hge
    have hmove := hconsumed.read_pos
    rw [hpos, add_wrapped hN hr (by omega) (Nat.not_lt.1 hge)] at hmove
    rw [Nat.mod_eq_sub_mod (by omega), Nat.mod_eq_of_lt (by omega)] at hmove
    omega
  · rintro ⟨hlt, hend⟩
    obtain ⟨n, m', hrun, hn, hpos, hframe, hbytes⟩ :=
      run_pShmBufferRead_some rfl h hstorage hlen ht.symm (by omega) fun _ => Nat.lt_succ_self t
    refine ⟨t + 1, n, m', hrun, t, ?_, by omega, hbytes (by omega), hframe, ?_⟩
    · rw [hn]
      exact Int.bmod_eq_of_le (by omega) (by omega)
    · rw [hpos, Nat.mod_eq_of_lt hend]

/-! ## Writes -/

/-- **A write ends** when it is refused, and when it is of less than 4 GiB. -/
theorem writeEnds_iff (hdata : data ≠ NULL) (hlen : len ≠ 0) :
    WriteEnds buf m data len ↔ ppShmBufferGetFreeSpace buf m.segment < len ∨ len.toNat < 2 ^ 32 := by
  constructor
  · rintro ⟨fuel, n, m', hrun⟩
    by_contra hnot
    obtain ⟨hfits, hlong⟩ := not_or.1 hnot
    rw [pShmBufferWrite_run fuel hdata hlen, if_neg hfits,
      lift_bind_none (copyIn_none _ (Nat.not_lt.1 hlong))] at hrun
    cases hrun
  · intro h
    by_cases hfull : ppShmBufferGetFreeSpace buf m.segment < len
    · exact ⟨0, 0, m, run_pShmBufferWrite_full 0 hdata hlen (UInt64.lt_iff_toNat_lt.1 hfull)⟩
    · obtain ⟨cells, hcopy, -⟩ := run_copyIn (m := m) rfl m.segment.write_pos data (h.resolve_left hfull)
        (Nat.lt_succ_self len.toNat)
      refine ⟨len.toNat + 1, len.toInt64, ⟨{ m.segment with
        write_pos := (m.segment.write_pos + len) % buf.size, data := cells }, m.user⟩, ?_⟩
      rw [pShmBufferWrite_run _ hdata hlen, if_neg hfull, lift_bind hcopy]
      rfl

/-- **The copy loops at any size**: for positions within the buffer, a read of `len` bytes ends and counts what
    it copies and a write of `len` bytes ends exactly when the read takes less than 2 GiB, in front of the end of
    the address space, and the write is refused or of less than 4 GiB. -/
theorem pShmBuffer_copies_iff (buf : PShmBuffer) (m : ShmMem) (storage data : ppointer) (len : psize)
    (h : m.segment.Within buf.size.toNat) (hstorage : storage ≠ NULL) (hdata : data ≠ NULL) (hlen : len ≠ 0) :
    ReadCounts buf m storage len ∧ WriteEnds buf m data len ↔
      (min len.toNat (m.segment.used buf.size.toNat) < 2 ^ 31 ∧
        m.segment.read_pos.toNat + min len.toNat (m.segment.used buf.size.toNat) < 2 ^ 64) ∧
      (ppShmBufferGetFreeSpace buf m.segment < len ∨ len.toNat < 2 ^ 32) := by
  rw [readCounts_iff h hstorage hlen, writeEnds_iff hdata hlen]

end

/-- A segment of 16 GiB that holds 4 GiB. -/
def longBuffer : PShmBuffer := ⟨⟨2 ^ 34 + 16⟩, 2 ^ 34⟩

def longMem : ShmMem := ⟨⟨0, 2 ^ 32, fun _ => 0⟩, fun _ => 0⟩

theorem longMem_within : longMem.segment.Within longBuffer.size.toNat := ⟨by decide, by decide⟩

theorem pShmBuffer_copies_iff_short :
    ReadCounts longBuffer longMem 1 4096 ∧ WriteEnds longBuffer longMem 1 4096 :=
  (pShmBuffer_copies_iff longBuffer longMem 1 1 4096 longMem_within (by decide) (by decide) (by decide)).2
    (by decide)

/-- Neither a read nor a write of 4 GiB ends. -/
theorem long_copies_loop :
    ¬ ReadCounts longBuffer longMem 1 (2 ^ 32) ∧ ¬ WriteEnds longBuffer longMem 1 (2 ^ 32) := by
  constructor
  · rw [readCounts_iff longMem_within (by decide) (by decide)]
    decide
  · rw [writeEnds_iff (by decide) (by decide)]
    decide

end Plibsys
