/-
  Runs on one shared buffer of `N` bytes.

  A call is made through some handle of the buffer, with the memory of its caller.  The
  state has, beside the segment, the bytes written and read since the last clear.
-/
import Plibsys.Lib.Runs
import Plibsys.Shm.BufferSpec

namespace Plibsys

open Runs Ring

/-- The segment, and the bytes written and read since the last clear. -/
structure History where
  segment : Segment
  written : List UInt8
  read : List UInt8

def History.zeroed : History := ⟨⟨0, 0, fun _ => 0⟩, [], []⟩

inductive BufferCall where
  | read (buf : PShmBuffer) (user : ppointer → UInt8) (storage : ppointer) (len : psize)
  | write (buf : PShmBuffer) (user : ppointer → UInt8) (data : ppointer) (len : psize)
  | clear (buf : PShmBuffer)
  | getFreeSpace (buf : PShmBuffer)
  | getUsedSpace (buf : PShmBuffer)

inductive BufferResult where
  | read (r : Except PError pint)
  | write (r : Except PError pssize)
  | cleared
  | space (r : Except PError pssize)

/-- The bytes at `p` that a call with this result has transferred. -/
def transferred (user : ppointer → UInt8) (p : ppointer) : Except PError ℤ → List UInt8
  | .ok n => bytesAt user p n.toNat
  | .error _ => []

/-- Perform a call while `PShm` reports no error. -/
def bufferCall (fuel : ℕ) : BufferCall → History → Option (BufferResult × History)
  | .read buf user storage len, h => do
    let (r, m) ← (pShmBufferRead fuel .success (some buf) storage len).run.run ⟨h.segment, user⟩
    return (.read r, { h with
      segment := m.segment, read := h.read ++ transferred m.user storage (r.map Int32.toInt) })
  | .write buf user data len, h => do
    let (r, m) ← (pShmBufferWrite fuel .success (some buf) data len).run.run ⟨h.segment, user⟩
    return (.write r, { h with
      segment := m.segment, written := h.written ++ transferred user data (r.map Int64.toInt) })
  | .clear buf, h => do
    let ((), m) ← (pShmBufferClear .success (some buf)).run ⟨h.segment, fun _ => 0⟩
    return (.cleared, ⟨m.segment, [], []⟩)
  | .getFreeSpace buf, h => do
    let (r, m) ← (pShmBufferGetFreeSpace .success (some buf)).run.run ⟨h.segment, fun _ => 0⟩
    return (.space r, { h with segment := m.segment })
  | .getUsedSpace buf, h => do
    let (r, m) ← (pShmBufferGetUsedSpace .success (some buf)).run.run ⟨h.segment, fun _ => 0⟩
    return (.space r, { h with segment := m.segment })

section
variable (N fuel : ℕ)

/-- A handle of a buffer of `N` bytes. -/
structure PShmBuffer.Opens (buf : PShmBuffer) : Prop where
  size_eq : buf.size.toNat = N
  shm_size_eq : buf.shm.size.toNat = N + shmBufferDataOffset.toNat

def BufferCall.Valid : BufferCall → Prop
  | .read buf _ p len | .write buf _ p len => buf.Opens N ∧ p ≠ NULL ∧ 0 < len.toNat ∧ len.toNat < 2 ^ 31
  | .clear buf | .getFreeSpace buf | .getUsedSpace buf => buf.Opens N

/-- Both positions are in the buffer, and what was read is the beginning of what was written. -/
structure History.Fifo (h : History) : Prop where
  within : h.segment.Within N
  read_written : h.read <+: h.written

/-- Every handle sees as many bytes, used and free, as the buffer can hold. -/
def Segment.AddsUp (s : Segment) : Prop :=
  ∀ buf : PShmBuffer, buf.Opens N →
    (ppShmBufferGetUsedSpace buf s).toNat + (ppShmBufferGetFreeSpace buf s).toNat = N - 1

/-- What a call on a bounded queue of `N - 1` bytes does. -/
def Answers (h : History) : BufferCall → BufferResult → History → Prop
  | .read _ _ _ len, r, h' => ∃ n : pint, r = .read (.ok n) ∧ n.toInt = min len.toNat (h.segment.used N) ∧
      ∃ bytes, bytes.length = n.toInt.toNat ∧ h'.read = h.read ++ bytes ∧
        h.segment.contents N = bytes ++ h'.segment.contents N
  | .write _ user data len, r, h' =>
    if h.segment.used N + len.toNat ≤ N - 1 then
      r = .write (.ok len.toInt64) ∧
        h'.segment.contents N = h.segment.contents N ++ bytesAt user data len.toNat
    else r = .write (.ok 0) ∧ h'.segment = h.segment
  | .clear _, r, h' => r = .cleared ∧ h'.segment.contents N = []
  | .getFreeSpace buf, r, h' => r = .space (.ok (ppShmBufferGetFreeSpace buf h.segment).toInt64) ∧ h' = h
  | .getUsedSpace buf, r, h' => r = .space (.ok (ppShmBufferGetUsedSpace buf h.segment).toInt64) ∧ h' = h

/-- The call returns, and it is a call on a bounded queue. -/
def CallFifo (h : History) (call : BufferCall) : Prop :=
  h.Fifo N ∧ ∃ r h', bufferCall fuel call h = some (r, h') ∧ Answers N h call r h' ∧ h'.Fifo N

/-- In addition, the space that is reported before and after the call adds up. -/
def CallFits (h : History) (call : BufferCall) : Prop :=
  CallFifo N fuel h call ∧ h.segment.AddsUp N ∧
    ∀ r h', bufferCall fuel call h = some (r, h') → h'.segment.AddsUp N

/-- A write that there seems to be space for ends before the end of the buffer. -/
def NoWrap (h : History) : BufferCall → Prop
  | .write buf _ _ len =>
    len.toNat ≤ (ppShmBufferGetFreeSpace buf h.segment).toNat → h.segment.write_pos.toNat + len.toNat < N
  | _ => True

instance (N : ℕ) (h : History) : (call : BufferCall) → Decidable (NoWrap N h call)
  | .write .. => inferInstanceAs (Decidable (_ → _))
  | .read .. | .clear .. | .getFreeSpace .. | .getUsedSpace .. => isTrue trivial

/-- No write from behind the read position ends at the read position. -/
def NoExactFill (h : History) : BufferCall → Prop
  | .write _ _ _ len =>
    h.segment.write_pos < h.segment.read_pos →
      h.segment.write_pos.toNat + len.toNat ≠ h.segment.read_pos.toNat
  | _ => True

end

variable {N fuel : ℕ} {s : Segment} {h : History} {call : BufferCall}

/-! ## The space that is reported -/

/-- It adds up exactly when the write position is not behind the read position. -/
theorem Segment.Within.addsUp_iff (hN : N < 2 ^ 31) (hs : s.Within N) :
    s.AddsUp N ↔ s.read_pos.toNat ≤ s.write_pos.toNat := by
  have hused := hs.used_lt
  constructor
  · intro hsum
    have hopens : PShmBuffer.Opens N ⟨⟨UInt64.ofNat (N + 16)⟩, UInt64.ofNat N⟩ := by
      constructor
      · exact UInt64.toNat_ofNat_of_lt' (show N < 2 ^ 64 by omega)
      · exact UInt64.toNat_ofNat_of_lt' (show N + 16 < 2 ^ 64 by omega)
    have h := hsum _ hopens
    rw [toNat_ppShmBufferGetUsedSpace hopens.size_eq hs, toNat_ppShmBufferGetFreeSpace hopens.size_eq hs] at h
    split_ifs at h with hlt <;> omega
  · intro hle buf hbuf
    rw [toNat_ppShmBufferGetUsedSpace hbuf.size_eq hs, toNat_ppShmBufferGetFreeSpace hbuf.size_eq hs,
      if_neg (Nat.not_lt.2 hle)]
    omega

/-- Unless a write from behind the read position ends there, one byte stays free. -/
theorem Segment.Within.used_add_lt (hs : s.Within N) {buf : PShmBuffer} (hbuf : buf.size.toNat = N) {len : ℕ}
    (hspace : len ≤ (ppShmBufferGetFreeSpace buf s).toNat)
    (hfill : s.write_pos.toNat < s.read_pos.toNat → s.write_pos.toNat + len ≠ s.read_pos.toNat) :
    s.used N + len < N := by
  have hr := hs.read_lt
  have hw := hs.write_lt
  rw [toNat_ppShmBufferGetFreeSpace hbuf hs] at hspace
  by_cases hlt : s.write_pos.toNat < s.read_pos.toNat
  · have hne := hfill hlt
    rw [if_pos hlt] at hspace
    unfold Segment.used at hspace ⊢
    rw [if_neg (Nat.not_le.2 hlt)] at hspace ⊢
    omega
  · rw [if_neg hlt] at hspace
    have := hs.used_lt
    omega

/-! ## One call -/

/-- The positions are in the buffer, and its bytes are those written but not yet read. -/
structure History.Holds (N : ℕ) (h : History) : Prop where
  within : h.segment.Within N
  written_eq : h.written = h.read ++ h.segment.contents N

theorem History.Holds.fifo (hh : h.Holds N) : h.Fifo N :=
  ⟨hh.within, hh.written_eq ▸ List.prefix_append _ _⟩

/-- What one call does to a state that holds. -/
structure Step (N fuel : ℕ) (h : History) (call : BufferCall) (r : BufferResult) (h' : History) : Prop where
  call_eq : bufferCall fuel call h = some (r, h')
  answers : Answers N h call r h'
  holds : h'.Holds N
  ordered : h.segment.read_pos.toNat ≤ h.segment.write_pos.toNat → NoWrap N h call →
    h'.segment.read_pos.toNat ≤ h'.segment.write_pos.toNat

theorem step_read (hN : N < 2 ^ 31) (hfuel : N < fuel) {buf : PShmBuffer} {user : ppointer → UInt8}
    {storage : ppointer} {len : psize} (hvalid : (BufferCall.read buf user storage len).Valid N) (hh : h.Holds N) :
    ∃ r h', Step N fuel h (.read buf user storage len) r h' := by
  obtain ⟨hbuf, hstorage, hlen, -⟩ := hvalid
  have hlen' : len ≠ 0 := fun h0 => by rw [h0] at hlen; exact absurd hlen (Nat.lt_irrefl 0)
  obtain ⟨user', pos, n, hrun, hn, hpos, hbytes⟩ :=
    run_pShmBufferRead (m := ⟨h.segment, user⟩) hN hfuel hbuf.size_eq hh.within hstorage hlen'
  have hle : n.toInt.toNat ≤ h.segment.used N := by
    rw [hn, Int.toNat_natCast]
    exact Nat.min_le_right _ _
  obtain ⟨hwithin, hcontents⟩ := hh.within.take hle hpos
  refine ⟨.read (.ok n), ⟨{ h.segment with read_pos := pos }, h.written,
    h.read ++ bytesAt user' storage n.toInt.toNat⟩, ?_, ?_, ⟨hwithin, ?_⟩, ?_⟩
  · simp [bufferCall, hrun, transferred, Except.map]
  · refine ⟨n, rfl, hn, _, length_bytesAt _ _ _, rfl, ?_⟩
    rw [hcontents, hbytes]
  · rw [List.append_assoc, hbytes, ← hcontents, hh.written_eq]
  · intro hord _
    have hused : h.segment.used N = h.segment.write_pos.toNat - h.segment.read_pos.toNat := if_pos hord
    have hw := hh.within.write_lt
    have : pos.toNat = h.segment.read_pos.toNat + n.toInt.toNat := by
      rw [hpos]
      exact Nat.mod_eq_of_lt (by show h.segment.read_pos.toNat + _ < N; omega)
    show pos.toNat ≤ h.segment.write_pos.toNat
    omega

/-- A write that is accepted. -/
theorem bufferCall_write (hN : N < 2 ^ 31) (hfuel : N < fuel) {buf : PShmBuffer} {user : ppointer → UInt8}
    {data : ppointer} {len : psize} (hvalid : (BufferCall.write buf user data len).Valid N)
    (hwithin : h.segment.Within N) (hspace : len.toNat ≤ (ppShmBufferGetFreeSpace buf h.segment).toNat) :
    ∃ pos, bufferCall fuel (.write buf user data len) h = some (.write (.ok len.toInt64),
        ⟨{ h.segment with
            write_pos := pos
            data := fill N h.segment.data h.segment.write_pos.toNat (bytesAt user data len.toNat) },
          h.written ++ bytesAt user data len.toNat, h.read⟩) ∧
      pos.toNat = (h.segment.write_pos.toNat + len.toNat) % N := by
  obtain ⟨hbuf, hdata, hlen, hlen31⟩ := hvalid
  have hlen' : len ≠ 0 := fun h0 => by rw [h0] at hlen; exact absurd hlen (Nat.lt_irrefl 0)
  obtain ⟨pos, hrun, hpos⟩ :=
    run_pShmBufferWrite (m := ⟨h.segment, user⟩) hN hfuel hbuf.size_eq hwithin hdata hlen' hspace
  refine ⟨pos, ?_, hpos⟩
  have hlen64 : len.toInt64.toInt = len.toNat := by
    rw [← UInt64.ofNat_toNat (x := len), UInt64.toInt64_ofNat', UInt64.ofNat_toNat,
      Int64.toInt_ofNat_of_lt (by omega)]
  simp [bufferCall, hrun, transferred, Except.map, hlen64]

theorem step_write (hN : N < 2 ^ 31) (hfuel : N < fuel) {buf : PShmBuffer} {user : ppointer → UInt8}
    {data : ppointer} {len : psize} (hvalid : (BufferCall.write buf user data len).Valid N) (hh : h.Holds N)
    (hfill : NoExactFill h (.write buf user data len)) :
    ∃ r h', Step N fuel h (.write buf user data len) r h' := by
  by_cases hspace : len.toNat ≤ (ppShmBufferGetFreeSpace buf h.segment).toNat
  · obtain ⟨pos, hcall, hpos⟩ := bufferCall_write hN hfuel hvalid hh.within hspace
    have hfits : h.segment.used N + len.toNat < N :=
      hh.within.used_add_lt hvalid.1.size_eq hspace fun hlt => hfill (UInt64.lt_iff_toNat_lt.2 hlt)
    obtain ⟨hwithin, hcontents⟩ := hh.within.append (bytesAt user data len.toNat)
      (by rwa [length_bytesAt]) (by rwa [length_bytesAt])
    refine ⟨_, _, hcall, ?_, ⟨hwithin, ?_⟩, fun hord hwrap => ?_⟩
    · rw [Answers, if_pos (by omega)]
      exact ⟨rfl, hcontents⟩
    · rw [hcontents, hh.written_eq, List.append_assoc]
    · show h.segment.read_pos.toNat ≤ pos.toNat
      rw [hpos, Nat.mod_eq_of_lt (hwrap hspace)]
      omega
  · obtain ⟨hbuf, hdata, hlen, -⟩ := hvalid
    have hlen' : len ≠ 0 := fun h0 => by rw [h0] at hlen; exact absurd hlen (Nat.lt_irrefl 0)
    have hrun := run_pShmBufferWrite_full (m := ⟨h.segment, user⟩) fuel hdata hlen' (Nat.not_le.1 hspace)
    refine ⟨.write (.ok 0), h, ?_, ?_, hh, fun hord _ => hord⟩
    · simp [bufferCall, hrun, transferred, Except.map, bytesAt]
    · have hused := hh.within.used_lt
      rw [toNat_ppShmBufferGetFreeSpace hbuf.size_eq hh.within] at hspace
      rw [Answers, if_neg]
      · exact ⟨rfl, rfl⟩
      · split_ifs at hspace <;> omega

theorem step_clear {buf : PShmBuffer} (hN : 0 < N) : ∃ r h', Step N fuel h (.clear buf) r h' := by
  refine ⟨.cleared, ⟨⟨0, 0, _⟩, [], []⟩, rfl, ⟨rfl, rfl⟩, ⟨⟨hN, hN⟩, rfl⟩, fun _ _ => le_rfl⟩

theorem step_getFreeSpace {buf : PShmBuffer} (hh : h.Holds N) : ∃ r h', Step N fuel h (.getFreeSpace buf) r h' :=
  ⟨_, h, rfl, ⟨rfl, rfl⟩, hh, fun hord _ => hord⟩

theorem step_getUsedSpace {buf : PShmBuffer} (hh : h.Holds N) : ∃ r h', Step N fuel h (.getUsedSpace buf) r h' :=
  ⟨_, h, rfl, ⟨rfl, rfl⟩, hh, fun hord _ => hord⟩

/-- **One call** is a call on a bounded queue unless a write makes the positions meet. -/
theorem step_bufferCall (hN : N < 2 ^ 31) (hfuel : N < fuel) (hvalid : call.Valid N) (hh : h.Holds N)
    (hfill : NoExactFill h call) : ∃ r h', Step N fuel h call r h' := by
  have hpos : 0 < N := Nat.zero_lt_of_lt hh.within.read_lt
  cases call with
  | read buf user storage len => exact step_read hN hfuel hvalid hh
  | write buf user data len => exact step_write hN hfuel hvalid hh hfill
  | clear buf => exact step_clear hpos
  | getFreeSpace buf => exact step_getFreeSpace hh
  | getUsedSpace buf => exact step_getUsedSpace hh

/-- In front of the read position no write can make the positions meet. -/
theorem NoExactFill.of_ordered (hord : h.segment.read_pos.toNat ≤ h.segment.write_pos.toNat) :
    NoExactFill h call := by
  cases call with
  | write buf user data len =>
    intro hlt
    exact absurd (UInt64.lt_iff_toNat_lt.1 hlt) (Nat.not_lt.2 hord)
  | _ => trivial

/-- A write around the end of the buffer is followed by a report that does not add up. -/
theorem noWrap_of_callFits (hN : N < 2 ^ 31) (hfuel : N < fuel) (hvalid : call.Valid N) (hh : h.Holds N)
    (hord : h.segment.read_pos.toNat ≤ h.segment.write_pos.toNat) (hfits : CallFits N fuel h call) :
    NoWrap N h call := by
  obtain ⟨-, -, hsum⟩ := hfits
  cases call with
  | write buf user data len =>
    intro hspace
    obtain ⟨pos, hcall, hpos⟩ := bufferCall_write hN hfuel hvalid hh.within hspace
    have hlt : h.segment.used N + len.toNat < N :=
      hh.within.used_add_lt hvalid.1.size_eq hspace fun hlt => absurd hord (Nat.not_le.2 hlt)
    have hw := hh.within.write_lt
    have hmod : pos.toNat < N := hpos ▸ Nat.mod_lt _ (Nat.zero_lt_of_lt hh.within.read_lt)
    have hwithin : Segment.Within N { h.segment with
        write_pos := pos
        data := fill N h.segment.data h.segment.write_pos.toNat (bytesAt user data len.toNat) } :=
      ⟨hh.within.read_lt, hmod⟩
    have hle : h.segment.read_pos.toNat ≤ pos.toNat := (hwithin.addsUp_iff hN).1 (hsum _ _ hcall)
    rw [Segment.used, if_pos hord] at hlt
    -- past the end, the write position would be behind the read position
    by_contra hend
    rw [hpos, Nat.mod_eq_sub_mod (Nat.not_lt.1 hend), Nat.mod_eq_of_lt (by omega)] at hle
    omega
  | _ => trivial

theorem Step.eq_of_call {r r₁ : BufferResult} {h' h₁ : History} (hstep : Step N fuel h call r h')
    (hcall : bufferCall fuel call h = some (r₁, h₁)) : h₁ = h' :=
  (Prod.mk.inj (Option.some.inj (hcall.symm.trans hstep.call_eq))).2

theorem Step.callFifo {r : BufferResult} {h' : History} (hh : h.Holds N) (hstep : Step N fuel h call r h') :
    CallFifo N fuel h call :=
  ⟨hh.fifo, r, h', hstep.call_eq, hstep.answers, hstep.holds.fifo⟩

/-! ## Runs -/

/-- The state holds, and the write position is not behind the read position. -/
structure History.Ordered (N : ℕ) (h : History) : Prop extends History.Holds N h where
  pos_le : h.segment.read_pos.toNat ≤ h.segment.write_pos.toNat

theorem Step.next_ordered {r : BufferResult} {h' : History} (hord : h.Ordered N) (hwrap : NoWrap N h call)
    (hstep : Step N fuel h call r h') : h'.Ordered N :=
  ⟨hstep.holds, hstep.ordered hord.pos_le hwrap⟩

theorem History.Ordered.addsUp (hN : N < 2 ^ 31) (hord : h.Ordered N) : h.segment.AddsUp N :=
  (hord.within.addsUp_iff hN).2 hord.pos_le

theorem History.Ordered.zeroed (hN : 0 < N) : History.zeroed.Ordered N := ⟨⟨⟨hN, hN⟩, rfl⟩, le_rfl⟩

/-- **The buffer is a bounded queue in exactly the runs that never write around its end**; but
    for the free space that is reported, it is one in all runs in which no write from behind the
    read position ends there. -/
theorem pShmBuffer_fifo (hN2 : 2 ≤ N) (hN : N < 2 ^ 31) (hfuel : N < fuel) {calls : List BufferCall}
    (hcalls : ∀ call ∈ calls, call.Valid N) :
    (Along (bufferCall fuel) (CallFits N fuel) calls .zeroed ↔
      Along (bufferCall fuel) (NoWrap N) calls .zeroed) ∧
    (Along (bufferCall fuel) NoExactFill calls .zeroed →
      Along (bufferCall fuel) (CallFifo N fuel) calls .zeroed) := by
  have hzero : History.zeroed.Ordered N := .zeroed (by omega)
  refine ⟨⟨fun hrun => ?_, fun hrun => ?_⟩, fun hrun => ?_⟩
  · refine hrun.imp (R := History.Ordered N) hzero fun call hmem h hord hfits => ?_
    have hwrap := noWrap_of_callFits hN hfuel (hcalls call hmem) hord.toHolds hord.pos_le hfits
    obtain ⟨r, h', hstep⟩ := step_bufferCall hN hfuel (hcalls call hmem) hord.toHolds (.of_ordered hord.pos_le)
    exact ⟨hwrap, fun _ _ hcall => hstep.eq_of_call hcall ▸ hstep.next_ordered hord hwrap⟩
  · refine hrun.imp (R := History.Ordered N) hzero fun call hmem h hord hwrap => ?_
    obtain ⟨r, h', hstep⟩ := step_bufferCall hN hfuel (hcalls call hmem) hord.toHolds (.of_ordered hord.pos_le)
    have hnext : ∀ r₁ h₁, bufferCall fuel call h = some (r₁, h₁) → h₁.Ordered N :=
      fun _ _ hcall => hstep.eq_of_call hcall ▸ hstep.next_ordered hord hwrap
    exact ⟨⟨hstep.callFifo hord.toHolds, hord.addsUp hN, fun r₁ h₁ hcall => (hnext r₁ h₁ hcall).addsUp hN⟩, hnext⟩
  · refine hrun.imp (R := History.Holds N) hzero.toHolds fun call hmem h hh hfill => ?_
    obtain ⟨r, h', hstep⟩ := step_bufferCall hN hfuel (hcalls call hmem) hh hfill
    exact ⟨hstep.callFifo hh, fun _ _ hcall => hstep.eq_of_call hcall ▸ hstep.holds⟩

/-- A byte in a buffer of two. -/
theorem pShmBuffer_fifo_two :
    let buf : PShmBuffer := ⟨⟨18⟩, 2⟩
    let calls : List BufferCall := [.write buf (fun _ => 7) 1 1, .getUsedSpace buf, .getFreeSpace buf]
    Along (bufferCall 3) (CallFits 2 3) calls .zeroed := by
  intro buf calls
  have hbuf : buf.Opens 2 := ⟨rfl, rfl⟩
  have hcalls : ∀ call ∈ calls, call.Valid 2 := by
    intro call hmem
    simp only [calls, List.mem_cons, List.not_mem_nil, or_false] at hmem
    obtain rfl | rfl | rfl := hmem
    · exact ⟨hbuf, by decide, by decide, by decide⟩
    · exact hbuf
    · exact hbuf
  exact (pShmBuffer_fifo (by decide) (by decide) (by decide) hcalls).1.2 (by decide)

/-- In a buffer of two bytes: write one, read it, write one at the end.  A third byte is then
    accepted, and a read returns nothing. -/
theorem pShmBuffer_exactFill :
    let buf : PShmBuffer := ⟨⟨18⟩, 2⟩
    let user : ppointer → UInt8 := fun _ => 7
    let calls : List BufferCall :=
      [.write buf user 1 1, .read buf user 1 1, .write buf user 1 1, .write buf user 1 1, .read buf user 1 1]
    ¬ Along (bufferCall 3) (CallFits 2 3) calls .zeroed := by
  intro buf user calls hrun
  -- a write that does not fit does not move the write position
  let refused (h : History) : BufferCall → Bool
    | .write b u p len => h.segment.used 2 + len.toNat ≤ 1 ∨
        (bufferCall 3 (.write b u p len) h).map (fun r => r.2.segment.write_pos) = some h.segment.write_pos
    | _ => true
  have hrefused : Along (bufferCall 3) (fun h call => refused h call) calls .zeroed := by
    refine hrun.imp (R := fun _ => True) trivial fun call _ h _ hfits => ⟨?_, fun _ _ _ => trivial⟩
    obtain ⟨⟨-, r, h', hcall, hans, -⟩, -⟩ := hfits
    cases call with
    | write b u p len =>
      refine decide_eq_true ?_
      by_cases hspace : h.segment.used 2 + len.toNat ≤ 1
      · exact .inl hspace
      · rw [Answers, if_neg hspace] at hans
        exact .inr (by rw [hcall, Option.map_some, hans.2])
    | _ => rfl
  revert hrefused
  decide

end Plibsys
