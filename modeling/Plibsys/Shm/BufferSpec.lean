/-
  What the calls on a shared memory buffer do when `PShm` reports no error, for a buffer of
  less than 2 GiB.
-/
import Plibsys.Lib.Ring
import Plibsys.Shm.Buffer

namespace Plibsys

open Looping Ring

/-- The positions lie within a buffer of `N` bytes. -/
structure Segment.Within (N : ℕ) (s : Segment) : Prop where
  read_lt : s.read_pos.toNat < N
  write_lt : s.write_pos.toNat < N

/-- The number of bytes from the read position to the write position, around the end of a
    buffer of `N` bytes. -/
def Segment.used (N : ℕ) (s : Segment) : ℕ :=
  if s.read_pos.toNat ≤ s.write_pos.toNat then s.write_pos.toNat - s.read_pos.toNat
  else N - (s.read_pos.toNat - s.write_pos.toNat)

/-- The bytes that are in a buffer of `N` bytes, the oldest first. -/
def Segment.contents (N : ℕ) (s : Segment) : List UInt8 := slice N s.data s.read_pos.toNat (s.used N)

/-- `n` bytes of the memory of the caller. -/
def bytesAt (user : ppointer → UInt8) (p : ppointer) (n : ℕ) : List UInt8 :=
  (List.range n).map fun i => user (p + i)

section
variable {N fuel : ℕ} {buf : PShmBuffer} {s : Segment} {m : ShmMem}

theorem Segment.Within.used_lt (h : s.Within N) : s.used N < N := by
  have := h.read_lt
  have := h.write_lt
  unfold Segment.used
  split_ifs <;> omega

theorem Segment.Within.add_used (h : s.Within N) :
    (s.read_pos.toNat + s.used N) % N = s.write_pos.toNat := by
  have := h.read_lt
  have := h.write_lt
  unfold Segment.used
  split_ifs with hle
  · rw [Nat.add_sub_cancel' hle, Nat.mod_eq_of_lt h.write_lt]
  · rw [show s.read_pos.toNat + (N - (s.read_pos.toNat - s.write_pos.toNat)) = s.write_pos.toNat + N by omega,
      Nat.add_mod_right, Nat.mod_eq_of_lt h.write_lt]

/-- The bytes in use are determined by the positions. -/
theorem Segment.Within.used_eq (h : s.Within N) {n : ℕ} (hn : n < N)
    (hpos : (s.read_pos.toNat + n) % N = s.write_pos.toNat) : s.used N = n := by
  have hmod : s.read_pos.toNat + s.used N ≡ s.read_pos.toNat + n [MOD N] := h.add_used.trans hpos.symm
  exact (Nat.ModEq.add_left_cancel' _ hmod).eq_of_lt_of_lt h.used_lt hn

/-! ## The space computations -/

theorem toNat_ppShmBufferGetUsedSpace (hbuf : buf.size.toNat = N) (h : s.Within N) :
    (ppShmBufferGetUsedSpace buf s).toNat = s.used N := by
  obtain ⟨hr, hw⟩ := h
  have := buf.size.toNat_lt
  unfold ppShmBufferGetUsedSpace Segment.used
  simp only [gt_iff_lt, UInt64.lt_iff_toNat_lt]
  split_ifs <;> simp only [UInt64.toNat_sub, UInt64.toNat_zero] <;> omega

/-- Behind the read position the result is one more than it should be. -/
theorem toNat_ppShmBufferGetFreeSpace (hbuf : buf.size.toNat = N) (h : s.Within N) :
    (ppShmBufferGetFreeSpace buf s).toNat =
      N - s.used N - if s.write_pos.toNat < s.read_pos.toNat then 0 else 1 := by
  obtain ⟨hr, hw⟩ := h
  have := buf.size.toNat_lt
  unfold ppShmBufferGetFreeSpace Segment.used
  simp only [gt_iff_lt, UInt64.lt_iff_toNat_lt]
  split_ifs <;> simp only [UInt64.toNat_sub, UInt64.toNat_one] <;> omega

/-! ## The copy loops -/

@[simp] theorem length_bytesAt (user : ppointer → UInt8) (p : ppointer) (n : ℕ) :
    (bytesAt user p n).length = n := by
  simp [bytesAt]

theorem bytesAt_succ (user : ppointer → UInt8) (p : ppointer) (n : ℕ) :
    bytesAt user p (n + 1) = bytesAt user p n ++ [user (p + n)] := by
  simp [bytesAt, List.range_succ]

theorem toNat_ofNat_toUInt64 {j : ℕ} (hj : j < 2 ^ 32) : (UInt32.ofNat j).toUInt64.toNat = j := by
  simp
  omega

theorem bytesAt_update (user : ppointer → UInt8) (p : ppointer) (n : ℕ) (b : UInt8) :
    bytesAt (Function.update user (p + n) b) p n = bytesAt user p n := by
  refine List.map_congr_left fun i hi => Function.update_of_ne ?_ _ _
  exact fun h => (List.mem_range.1 hi).ne (Nat.add_left_cancel h)

theorem toNat_add_mod {pos i : psize} (hbuf : buf.size.toNat = N) (h : pos.toNat + i.toNat < 2 ^ 64) :
    ((pos + i) % buf.size).toNat = (pos.toNat + i.toNat) % N := by
  rw [UInt64.toNat_mod, UInt64.toNat_add, Nat.mod_eq_of_lt h, hbuf]

theorem ofNat_succ (j : ℕ) : UInt32.ofNat j + 1 = UInt32.ofNat (j + 1) := by
  apply UInt32.toNat_inj.1
  simp

/-- After `j` rounds the first `j` bytes are copied, and no others. -/
theorem iters_copyOut (hbuf : buf.size.toNat = N) (read_pos : psize) {to_copy : psize} (storage : ppointer)
    (hto : to_copy.toNat < 2 ^ 32) {j : ℕ} (hj : j ≤ to_copy.toNat) :
    ∃ user, Iters (copyOutStep buf read_pos to_copy storage) j (0, m) (UInt32.ofNat j, { m with user := user }) ∧
      (∀ p, (∀ i < j, p ≠ storage + i) → user p = m.user p) ∧
      (read_pos.toNat + j ≤ 2 ^ 64 → bytesAt user storage j = slice N m.segment.data read_pos.toNat j) := by
  induction j with
  | zero => exact ⟨m.user, .refl, fun _ _ => rfl, fun _ => rfl⟩
  | succ j ih =>
    obtain ⟨user, hi, hframe, hbytes⟩ := ih (by omega)
    have hnat : (UInt32.ofNat j).toUInt64.toNat = j := toNat_ofNat_toUInt64 (by omega)
    have hlt : (UInt32.ofNat j).toUInt64 < to_copy := by
      rw [UInt64.lt_iff_toNat_lt, hnat]
      omega
    have hstep : ((copyOutStep buf read_pos to_copy storage) (UInt32.ofNat j)).run { m with user := user } =
        some (.next (UInt32.ofNat (j + 1)),
          { m with
            user := Function.update user (storage + j)
              (m.segment.data ((read_pos + (UInt32.ofNat j).toUInt64) % buf.size).toNat) }) := by
      have hofNat : (UInt32.ofNat j).toNat = j := by
        rw [← UInt32.toNat_toUInt64, hnat]
      simp only [StateT.run, copyOutStep, if_pos hlt, ofNat_succ, hofNat]
    refine ⟨_, hi.trans (.one hstep), fun p hp => ?_, fun hpos => ?_⟩
    · rw [Function.update_of_ne (hp j (by omega))]
      exact hframe p fun i hij => hp i (by omega)
    · rw [bytesAt_succ, bytesAt_update, hbytes (by omega), Function.update_self, slice_add,
        toNat_add_mod hbuf (by omega), hnat]
      rfl

theorem run_copyOut (hbuf : buf.size.toNat = N) (read_pos : psize) {to_copy : psize} (storage : ppointer)
    (hto : to_copy.toNat < 2 ^ 32) (hfuel : to_copy.toNat < fuel) :
    ∃ user, (copyOut fuel buf read_pos to_copy storage).run m = some ((), { m with user := user }) ∧
      (∀ p, (∀ i < to_copy.toNat, p ≠ storage + i) → user p = m.user p) ∧
      (read_pos.toNat + to_copy.toNat ≤ 2 ^ 64 →
        bytesAt user storage to_copy.toNat = slice N m.segment.data read_pos.toNat to_copy.toNat) := by
  obtain ⟨user, hi, hframe, hbytes⟩ := iters_copyOut (m := m) hbuf read_pos storage hto le_rfl
  refine ⟨user, loop_eq hi ?_ hfuel, hframe, hbytes⟩
  have hend : ¬ (UInt32.ofNat to_copy.toNat).toUInt64 < to_copy := by
    rw [UInt64.lt_iff_toNat_lt, toNat_ofNat_toUInt64 hto]
    exact Nat.lt_irrefl _
  simp only [StateT.run, copyOutStep, if_neg hend]

theorem iters_copyIn (hbuf : buf.size.toNat = N) (write_pos : psize) {len : psize} (data : ppointer)
    (hto : len.toNat < 2 ^ 32) {j : ℕ} (hj : j ≤ len.toNat) :
    ∃ cells, Iters (copyInStep buf write_pos len data) j (0, m)
        (UInt32.ofNat j, { m with segment := { m.segment with data := cells } }) ∧
      (write_pos.toNat + j ≤ 2 ^ 64 → cells = fill N m.segment.data write_pos.toNat (bytesAt m.user data j)) := by
  induction j with
  | zero => exact ⟨m.segment.data, .refl, fun _ => rfl⟩
  | succ j ih =>
    obtain ⟨cells, hi, hcells⟩ := ih (by omega)
    have hnat : (UInt32.ofNat j).toUInt64.toNat = j := toNat_ofNat_toUInt64 (by omega)
    have hlt : (UInt32.ofNat j).toUInt64 < len := by
      rw [UInt64.lt_iff_toNat_lt, hnat]
      omega
    have hstep : ((copyInStep buf write_pos len data) (UInt32.ofNat j)).run
          { m with segment := { m.segment with data := cells } } =
        some (.next (UInt32.ofNat (j + 1)),
          { m with
            segment := { m.segment with
              data := Function.update cells
                ((write_pos + (UInt32.ofNat j).toUInt64) % buf.size).toNat (m.user (data + j)) } }) := by
      have hofNat : (UInt32.ofNat j).toNat = j := by
        rw [← UInt32.toNat_toUInt64, hnat]
      simp only [StateT.run, copyInStep, if_pos hlt, ofNat_succ, hofNat]
    refine ⟨_, hi.trans (.one hstep), fun hpos => ?_⟩
    rw [hcells (by omega), toNat_add_mod hbuf (by omega), hnat, bytesAt_succ, fill_append, length_bytesAt]

theorem run_copyIn (hbuf : buf.size.toNat = N) (write_pos : psize) {len : psize} (data : ppointer)
    (hto : len.toNat < 2 ^ 32) (hfuel : len.toNat < fuel) :
    ∃ cells, (copyIn fuel buf write_pos len data).run m =
        some ((), { m with segment := { m.segment with data := cells } }) ∧
      (write_pos.toNat + len.toNat ≤ 2 ^ 64 →
        cells = fill N m.segment.data write_pos.toNat (bytesAt m.user data len.toNat)) := by
  obtain ⟨cells, hi, hcells⟩ := iters_copyIn (m := m) hbuf write_pos data hto le_rfl
  refine ⟨cells, loop_eq hi ?_ hfuel, hcells⟩
  have hend : ¬ (UInt32.ofNat len.toNat).toUInt64 < len := by
    rw [UInt64.lt_iff_toNat_lt, toNat_ofNat_toUInt64 hto]
    exact Nat.lt_irrefl _
  simp only [StateT.run, copyInStep, if_neg hend]

/-! ## Moving the positions -/

/-- The first `n` bytes are taken out. -/
theorem Segment.Within.take (h : s.Within N) {n : ℕ} (hn : n ≤ s.used N) {pos : psize}
    (hpos : pos.toNat = (s.read_pos.toNat + n) % N) :
    Segment.Within N { s with read_pos := pos } ∧
      s.contents N = slice N s.data s.read_pos.toNat n ++ Segment.contents N { s with read_pos := pos } := by
  have hN : 0 < N := Nat.zero_lt_of_lt h.read_lt
  have hwithin : Segment.Within N { s with read_pos := pos } := ⟨hpos ▸ Nat.mod_lt _ hN, h.write_lt⟩
  refine ⟨hwithin, ?_⟩
  have hused : Segment.used N { s with read_pos := pos } = s.used N - n := by
    refine hwithin.used_eq (Nat.lt_of_le_of_lt (Nat.sub_le _ _) h.used_lt) ?_
    rw [hpos, Nat.mod_add_mod, Nat.add_assoc, Nat.add_sub_cancel' hn, h.add_used]
  simp only [Segment.contents, hused, hpos]
  rw [slice_mod, ← slice_add, Nat.add_sub_cancel' hn]

/-- Bytes are put behind the others. -/
theorem Segment.Within.append (h : s.Within N) (xs : List UInt8) (hxs : s.used N + xs.length < N) {pos : psize}
    (hpos : pos.toNat = (s.write_pos.toNat + xs.length) % N) :
    Segment.Within N { s with write_pos := pos, data := fill N s.data s.write_pos.toNat xs } ∧
      Segment.contents N { s with write_pos := pos, data := fill N s.data s.write_pos.toNat xs } =
        s.contents N ++ xs := by
  have hN : 0 < N := Nat.zero_lt_of_lt h.read_lt
  have hwithin : Segment.Within N { s with write_pos := pos, data := fill N s.data s.write_pos.toNat xs } :=
    ⟨h.read_lt, hpos ▸ Nat.mod_lt _ hN⟩
  refine ⟨hwithin, ?_⟩
  have hused : Segment.used N { s with write_pos := pos, data := fill N s.data s.write_pos.toNat xs } =
      s.used N + xs.length := by
    refine hwithin.used_eq hxs ?_
    rw [hpos, ← h.add_used, Nat.mod_add_mod, Nat.add_assoc]
  rw [Segment.contents, hused]
  rw [← h.add_used, fill_mod]
  exact slice_fill_append _ _ (Nat.le_of_lt hxs)

/-! ## The calls -/

section
variable {α β : Type} {m' : ShmMem}

theorem lift_bind {x : StateT ShmMem Option α} {a : α} (h : x.run m = some (a, m')) (f : α → ShmM β) :
    ((liftM x : ShmM α) >>= f).run.run m = (f a).run.run m' := by
  change (ExceptT.lift x >>= f).run.run m = (f a).run.run m'
  simp [h]

@[simp] theorem lock_bind (f : Unit → ShmM β) : (callShm ShmResults.success.lock >>= f) = f () := rfl

@[simp] theorem unlock_bind (f : Unit → ShmM β) : (callShm ShmResults.success.unlock >>= f) = f () := rfl

/-- There is an address. -/
theorem address_success : ¬ ¬ ShmResults.success.address = true := not_not_intro rfl

theorem getSegment_bind (f : Segment → ShmM β) :
    ((liftM (getSegment .success) : ShmM Segment) >>= f).run.run m = (f m.segment).run.run m :=
  lift_bind rfl f

end

variable (fuel) in
/-- A read copies and moves the read position when there is something in the buffer. -/
theorem pShmBufferRead_run {storage : ppointer} (hstorage : storage ≠ NULL) {len : psize} (hlen : len ≠ 0) :
    (pShmBufferRead fuel .success (some buf) storage len).run.run m =
      (if m.segment.read_pos = m.segment.write_pos then pure 0 else do
        let to_copy := if ppShmBufferGetUsedSpace buf m.segment ≤
          len then ppShmBufferGetUsedSpace buf m.segment else len
        copyOut fuel buf m.segment.read_pos to_copy storage
        setReadPos ((m.segment.read_pos + to_copy) % buf.size)
        return to_copy.toUInt32.toInt32 : ShmM pint).run.run m := by
  have hvalid : ¬ (storage = NULL ∨ len = 0) := by simp [hstorage, hlen]
  simp only [pShmBufferRead, if_neg hvalid, if_neg address_success, lock_bind, unlock_bind]
  exact getSegment_bind _

variable (fuel) in
/-- A write copies and moves the write position when there is space for it. -/
theorem pShmBufferWrite_run {data : ppointer} (hdata : data ≠ NULL) {len : psize} (hlen : len ≠ 0) :
    (pShmBufferWrite fuel .success (some buf) data len).run.run m =
      (if ppShmBufferGetFreeSpace buf m.segment < len then pure 0 else do
        copyIn fuel buf m.segment.write_pos len data
        setWritePos ((m.segment.write_pos + len) % buf.size)
        return len.toInt64 : ShmM pssize).run.run m := by
  have hvalid : ¬ (data = NULL ∨ len = 0) := by simp [hdata, hlen]
  simp only [pShmBufferWrite, if_neg hvalid, if_neg address_success, lock_bind, unlock_bind]
  exact getSegment_bind _

/-- What a read copies. -/
theorem toNat_toCopy (hbuf : buf.size.toNat = N) (h : s.Within N) (len : psize) :
    (if ppShmBufferGetUsedSpace buf s ≤ len then ppShmBufferGetUsedSpace buf s else len).toNat =
      min len.toNat (s.used N) := by
  rw [← toNat_ppShmBufferGetUsedSpace hbuf h]
  split
  next hle => exact (Nat.min_eq_right (UInt64.le_iff_toNat_le.1 hle)).symm
  next hle => exact (Nat.min_eq_left (Nat.le_of_not_le fun h' => hle (UInt64.le_iff_toNat_le.2 h'))).symm

/-- Nothing is in the buffer when the positions are the same. -/
theorem Segment.Within.used_eq_zero (h : s.Within N) (heq : s.read_pos = s.write_pos) : s.used N = 0 :=
  h.used_eq (Nat.zero_lt_of_lt h.used_lt) (by rw [heq, Nat.add_zero, Nat.mod_eq_of_lt h.write_lt])

/-- A read takes out what there is, at most `len` bytes. -/
theorem run_pShmBufferRead (hN : N < 2 ^ 31) (hfuel : N < fuel) (hbuf : buf.size.toNat = N)
    (h : m.segment.Within N) {storage : ppointer} (hstorage : storage ≠ NULL) {len : psize} (hlen : len ≠ 0) :
    ∃ user pos n, (pShmBufferRead fuel .success (some buf) storage len).run.run m =
        some (.ok n, ⟨{ m.segment with read_pos := pos }, user⟩) ∧
      n.toInt = min len.toNat (m.segment.used N) ∧
      pos.toNat = (m.segment.read_pos.toNat + n.toInt.toNat) % N ∧
      bytesAt user storage n.toInt.toNat = slice N m.segment.data m.segment.read_pos.toNat n.toInt.toNat := by
  have hr := h.read_lt
  have hused := h.used_lt
  rw [pShmBufferRead_run fuel hstorage hlen]
  split
  next heq =>
    exact ⟨m.user, m.segment.read_pos, 0, rfl, by rw [h.used_eq_zero heq, Nat.min_zero]; rfl,
      (Nat.mod_eq_of_lt hr).symm, rfl⟩
  next heq =>
    have hnat := toNat_toCopy hbuf h len
    generalize (if ppShmBufferGetUsedSpace buf m.segment ≤ len then ppShmBufferGetUsedSpace buf m.segment
      else len) = to_copy at hnat ⊢
    have hpint : to_copy.toUInt32.toInt32.toInt = to_copy.toNat := by
      have h32 : to_copy.toUInt32.toInt32 = Int32.ofNat to_copy.toNat := rfl
      rw [h32, Int32.toInt_ofNat_of_lt (by omega)]
    obtain ⟨user, hcopy, -, hbytes⟩ := run_copyOut (m := m) hbuf m.segment.read_pos storage
      (show to_copy.toNat < 2 ^ 32 by omega) (show to_copy.toNat < fuel by omega)
    refine ⟨user, (m.segment.read_pos + to_copy) % buf.size, to_copy.toUInt32.toInt32, ?_, ?_, ?_, ?_⟩
    · rw [lift_bind hcopy]
      rfl
    · rw [hpint, hnat]
    · rw [hpint, Int.toNat_natCast]
      exact toNat_add_mod hbuf (by omega)
    · rw [hpint, Int.toNat_natCast, hbytes (by omega)]

/-- A write that is accepted fills the cells from the write position on. -/
theorem run_pShmBufferWrite (hN : N < 2 ^ 31) (hfuel : N < fuel) (hbuf : buf.size.toNat = N)
    (h : m.segment.Within N) {data : ppointer} (hdata : data ≠ NULL) {len : psize} (hlen : len ≠ 0)
    (hspace : len.toNat ≤ (ppShmBufferGetFreeSpace buf m.segment).toNat) :
    ∃ pos, (pShmBufferWrite fuel .success (some buf) data len).run.run m =
        some (.ok len.toInt64, ⟨{ m.segment with
          write_pos := pos, data :=
            fill N m.segment.data m.segment.write_pos.toNat (bytesAt m.user data len.toNat) },
          m.user⟩) ∧
      pos.toNat = (m.segment.write_pos.toNat + len.toNat) % N := by
  have hw := h.write_lt
  have hfree := toNat_ppShmBufferGetFreeSpace hbuf h
  have hlen' : len.toNat ≤ N := by omega
  refine ⟨(m.segment.write_pos + len) % buf.size, ?_, toNat_add_mod hbuf (by omega)⟩
  obtain ⟨cells, hcopy, hcells⟩ := run_copyIn (m := m) hbuf m.segment.write_pos data
    (show len.toNat < 2 ^ 32 by omega) (show len.toNat < fuel by omega)
  have hfits : ¬ ppShmBufferGetFreeSpace buf m.segment < len := by
    rw [UInt64.lt_iff_toNat_lt]
    omega
  rw [pShmBufferWrite_run fuel hdata hlen, if_neg hfits, lift_bind hcopy, hcells (by omega)]
  rfl

variable (fuel) in
/-- A write for which there is no space does nothing. -/
theorem run_pShmBufferWrite_full {data : ppointer} (hdata : data ≠ NULL) {len : psize} (hlen : len ≠ 0)
    (hspace : (ppShmBufferGetFreeSpace buf m.segment).toNat < len.toNat) :
    (pShmBufferWrite fuel .success (some buf) data len).run.run m = some (.ok 0, m) := by
  rw [pShmBufferWrite_run fuel hdata hlen, if_pos (UInt64.lt_iff_toNat_lt.2 hspace)]
  rfl

end

end Plibsys
