/-
  Thread-local storage on Windows: whatever the threads do.

  * `KeysInv`: the indexes of the keys, and the list of destructors.
  * `ThreadInv`: what one thread sees, and what it knows where it is.
  * `tlsWindows`: what follows for all runs.
-/
import Plibsys.Thread.TlsWindows

namespace Plibsys

open Interleaving

namespace Windows

variable {ι κ : Type} {freeFunc : κ → ppointer} {s s' : TlsShared ι κ} {i j : ι} {k : κ}
  {idx : DWORD}

/-! ## The shared state -/

/-- An index that is no key's, and under which no thread has a value. -/
structure Unused (s : TlsShared ι κ) (idx : DWORD) : Prop where
  keys : ∀ k, s.keyIdx k ≠ idx
  values : ∀ j, s.values j idx = NULL

structure KeysInv (freeFunc : κ → ppointer) (s : TlsShared ι κ) : Prop where
  allocated : ∀ k, s.keyIdx k ≠ TLS_OUT_OF_INDEXES → s.allocated (s.keyIdx k) = true
  injective : ∀ k k', s.keyIdx k = s.keyIdx k' → s.keyIdx k ≠ TLS_OUT_OF_INDEXES → k = k'
  registered : ∀ k, s.keyIdx k ≠ TLS_OUT_OF_INDEXES → freeFunc k ≠ NULL →
    ⟨s.keyIdx k, freeFunc k, k⟩ ∈ s.destructors
  func : ∀ d ∈ s.destructors, d.free_func = freeFunc d.key ∧ d.free_func ≠ NULL
  index : ∀ d ∈ s.destructors, d.key_idx ≠ TLS_OUT_OF_INDEXES ∧ s.allocated d.key_idx = true
  owner : ∀ d ∈ s.destructors, s.keyIdx d.key = d.key_idx ∨ Unused s d.key_idx

/-- The thread has the mutex, and an index for the key that it has not yet stored. -/
structure Pending (s : TlsShared ι κ) (i : ι) (k : κ) (idx : DWORD) : Prop where
  mutex : s.mutex = some i
  unset : s.keyIdx k = TLS_OUT_OF_INDEXES
  index : idx ≠ TLS_OUT_OF_INDEXES
  allocated : s.allocated idx = true
  unused : Unused s idx

/-- What has changed for a thread that has not itself stored a value. -/
structure Grows (i : ι) (s s' : TlsShared ι κ) : Prop where
  keys : ∀ k, s.keyIdx k ≠ TLS_OUT_OF_INDEXES → s'.keyIdx k = s.keyIdx k
  fresh : ∀ k, s.keyIdx k = TLS_OUT_OF_INDEXES → s'.keyIdx k ≠ TLS_OUT_OF_INDEXES →
    s'.values i (s'.keyIdx k) = NULL
  values : ∀ k, s.keyIdx k ≠ TLS_OUT_OF_INDEXES → s'.values i (s.keyIdx k) = s.values i (s.keyIdx k)
  destructors : ∀ d ∈ s.destructors, d ∈ s'.destructors

/-- What has changed by the steps of other threads. -/
structure Others (i : ι) (s s' : TlsShared ι κ) : Prop extends Grows i s s' where
  mutex : s'.mutex = some i ↔ s.mutex = some i
  held : s.mutex = some i → s'.keyIdx = s.keyIdx ∧ s'.allocated = s.allocated ∧ s'.destructors = s.destructors ∧
    ∀ idx, Unused s idx → Unused s' idx

theorem Grows.refl : Grows i s s := ⟨fun _ _ => rfl, fun _ h h' => absurd h h', fun _ _ => rfl, fun _ h => h⟩

theorem Others.refl : Others i s s := ⟨Grows.refl, Iff.rfl, fun _ => ⟨rfl, rfl, rfl, fun _ h => h⟩⟩

/-- A change made under the mutex. -/
theorem Grows.others (h : Grows j s s') (hij : j ≠ i) (hs : s.mutex = some i) (hs' : s'.mutex = some i) :
    Others j s s' := by
  have hne : (some i : Option ι) ≠ some j := fun heq => hij (Option.some.inj heq).symm
  refine ⟨h, ?_, fun hj => absurd (hs.symm.trans hj) hne⟩
  rw [hs, hs']

/-! ## Changes of the shared state -/

theorem KeysInv.congr (h : KeysInv freeFunc s) (hkeys : s'.keyIdx = s.keyIdx)
    (hallocated : s'.allocated = s.allocated)
    (hdestructors : s'.destructors = s.destructors) (hunused : ∀ idx, Unused s idx → Unused s' idx) :
    KeysInv freeFunc s' := by
  obtain ⟨h₁, h₂, h₃, h₄, h₅, h₆⟩ := h
  constructor
  · rwa [hkeys, hallocated]
  · rwa [hkeys]
  · rwa [hkeys, hdestructors]
  · rwa [hdestructors]
  · rwa [hdestructors, hallocated]
  · intro d hd
    rw [hdestructors] at hd
    rw [hkeys]
    exact (h₆ d hd).imp_right (hunused _)

/-- The owner of the mutex has changed. -/
theorem KeysInv.setMutex (h : KeysInv freeFunc s) (owner : Option ι) :
    KeysInv freeFunc { s with mutex := owner } :=
  h.congr rfl rfl rfl fun _ hidx => ⟨hidx.keys, hidx.values⟩

theorem others_setMutex {owner : Option ι} (hij : j ≠ i)
    (hmutex : s.mutex = none ∧ owner = some i ∨ s.mutex = some i ∧ owner = none) :
    Others j s { s with mutex := owner } := by
  have hne : (some i : Option ι) ≠ some j := fun heq => hij (Option.some.inj heq).symm
  refine ⟨⟨fun _ _ => rfl, fun _ h h' => absurd h h', fun _ _ => rfl, fun _ h => h⟩, ?_, ?_⟩
  · rcases hmutex with ⟨hs, rfl⟩ | ⟨hs, rfl⟩
    · simp [hs, hne]
    · simp [hs, hne]
  · intro _
    exact ⟨rfl, rfl, rfl, fun _ hidx => ⟨hidx.keys, hidx.values⟩⟩

/-- An index is allocated. -/
theorem KeysInv.alloc (h : KeysInv freeFunc s) (hidx : s.allocated idx = false) :
    KeysInv freeFunc (s.alloc idx) := by
  obtain ⟨h₁, h₂, h₃, h₄, h₅, h₆⟩ := h
  have hallocated : ∀ e, s.allocated e = true → (s.alloc idx).allocated e = true := by
    intro e he
    by_cases heq : e = idx
    · subst heq
      simp [TlsShared.alloc]
    · simp [TlsShared.alloc, Function.update_of_ne heq, he]
  refine ⟨fun k hk => hallocated _ (h₁ k hk), h₂, h₃, h₄, fun d hd => ⟨(h₅ d hd).1, hallocated _ (h₅ d hd).2⟩, ?_⟩
  intro d hd
  refine (h₆ d hd).imp_right fun hunused => ⟨hunused.keys, fun j => ?_⟩
  by_cases heq : d.key_idx = idx
  · simp [TlsShared.alloc, heq]
  · simp [TlsShared.alloc, Function.update_of_ne heq, hunused.values j]

theorem grows_alloc (h : KeysInv freeFunc s) (hidx : s.allocated idx = false) : Grows j s (s.alloc idx) := by
  refine ⟨fun _ _ => rfl, fun _ hk hk' => absurd hk hk', fun k hk => ?_, fun _ hd => hd⟩
  have hne : s.keyIdx k ≠ idx := by
    rintro rfl
    rw [h.allocated k hk] at hidx
    cases hidx
  exact Function.update_of_ne hne ..

/-- The index that has been allocated is unused. -/
theorem Unused.alloc (h : KeysInv freeFunc s) (hidx : s.allocated idx = false) (hout : idx ≠ TLS_OUT_OF_INDEXES) :
    Unused (s.alloc idx) idx := by
  constructor
  · intro k hk
    change s.keyIdx k = idx at hk
    rw [← hk, h.allocated k (hk ▸ hout)] at hidx
    cases hidx
  · intro j
    exact Function.update_self ..

/-- A destructor is put on the list. -/
theorem KeysInv.register (h : KeysInv freeFunc s) (hp : Pending s i k idx) (hfunc : freeFunc k ≠ NULL) :
    KeysInv freeFunc { s with destructors := ⟨idx, freeFunc k, k⟩ :: s.destructors } := by
  obtain ⟨h₁, h₂, h₃, h₄, h₅, h₆⟩ := h
  refine ⟨h₁, h₂, fun k hk hfunc => List.mem_cons_of_mem _ (h₃ k hk hfunc), ?_, ?_, ?_⟩
  · intro d hd
    rcases List.mem_cons.1 hd with rfl | hd
    · exact ⟨rfl, hfunc⟩
    · exact h₄ d hd
  · intro d hd
    rcases List.mem_cons.1 hd with rfl | hd
    · exact ⟨hp.index, hp.allocated⟩
    · exact h₅ d hd
  · intro d hd
    rcases List.mem_cons.1 hd with rfl | hd
    · exact .inr ⟨hp.unused.keys, hp.unused.values⟩
    · exact (h₆ d hd).imp_right fun hunused => ⟨hunused.keys, hunused.values⟩

/-- The index is given back. -/
theorem KeysInv.dealloc (h : KeysInv freeFunc s) (hp : Pending s i k idx)
    (hfresh : ∀ d ∈ s.destructors, d.key_idx ≠ idx)
    (ok : Bool) : KeysInv freeFunc { s with allocated := Function.update s.allocated idx !ok } := by
  obtain ⟨h₁, h₂, h₃, h₄, h₅, h₆⟩ := h
  refine ⟨fun k hk => ?_, h₂, h₃, h₄, fun d hd => ⟨(h₅ d hd).1, ?_⟩, fun d hd => ?_⟩
  · exact (Function.update_of_ne (hp.unused.keys k) ..).trans (h₁ k hk)
  · exact (Function.update_of_ne (hfresh d hd) ..).trans (h₅ d hd).2
  · exact (h₆ d hd).imp_right fun hunused => ⟨hunused.keys, hunused.values⟩

section
variable [DecidableEq κ]

/-- The index is stored in the key. -/
theorem KeysInv.publish (h : KeysInv freeFunc s) (hp : Pending s i k idx)
    (howner : ∀ d ∈ s.destructors, d.key_idx = idx → d.key = k)
    (hmem : freeFunc k ≠ NULL → ⟨idx, freeFunc k, k⟩ ∈ s.destructors) :
    KeysInv freeFunc { s with keyIdx := Function.update s.keyIdx k idx } := by
  obtain ⟨h₁, h₂, h₃, h₄, h₅, h₆⟩ := h
  have hupdate : ∀ k', k' ≠ k → Function.update s.keyIdx k idx k' = s.keyIdx k' :=
    fun k' hk' => Function.update_of_ne hk' ..
  constructor
  · intro k' hk'
    by_cases heq : k' = k
    · subst heq
      simp only [Function.update_self]
      exact hp.allocated
    · simp only [hupdate k' heq] at hk' ⊢
      exact h₁ k' hk'
  · intro k₁ k₂ hsame hk₁
    by_cases heq₁ : k₁ = k
    · by_cases heq₂ : k₂ = k
      · rw [heq₁, heq₂]
      · subst heq₁
        simp only [Function.update_self, hupdate k₂ heq₂] at hsame
        exact absurd hsame.symm (hp.unused.keys k₂)
    · by_cases heq₂ : k₂ = k
      · subst heq₂
        simp only [Function.update_self, hupdate k₁ heq₁] at hsame
        exact absurd hsame (hp.unused.keys k₁)
      · simp only [hupdate k₁ heq₁, hupdate k₂ heq₂] at hsame hk₁
        exact h₂ k₁ k₂ hsame hk₁
  · intro k' hk' hfunc
    by_cases heq : k' = k
    · subst heq
      simp only [Function.update_self]
      exact hmem hfunc
    · simp only [hupdate k' heq] at hk' ⊢
      exact h₃ k' hk' hfunc
  · exact h₄
  · exact h₅
  · intro d hd
    by_cases heq : d.key_idx = idx
    · refine .inl ?_
      simp only [howner d hd heq, Function.update_self, heq]
    · rcases h₆ d hd with hown | hunused
      · have hne : d.key ≠ k := by
          intro hkey
          rw [hkey, hp.unset] at hown
          exact (h₅ d hd).1 hown.symm
        exact .inl ((hupdate _ hne).trans hown)
      · refine .inr ⟨fun k' => ?_, hunused.values⟩
        by_cases hk' : k' = k
        · subst hk'
          simp only [Function.update_self]
          exact fun h => heq h.symm
        · simp only [hupdate k' hk']
          exact hunused.keys k'

theorem grows_publish (hp : Pending s i k idx) :
    Grows j s { s with keyIdx := Function.update s.keyIdx k idx } := by
  refine ⟨fun k' hk' => ?_, fun k' hk' hnew => ?_, fun _ _ => rfl, fun _ hd => hd⟩
  · refine Function.update_of_ne ?_ ..
    rintro rfl
    exact hk' hp.unset
  · by_cases heq : k' = k
    · subst heq
      simp only [Function.update_self]
      exact hp.unused.values j
    · simp only [Function.update_of_ne heq] at hnew
      exact absurd hk' hnew

end

section
variable [DecidableEq ι] {value : ppointer}

/-- A value is stored under the index of a key. -/
theorem unused_setValue (hk : s.keyIdx k = idx) {e : DWORD} (h : Unused s e) :
    Unused (s.setValue i idx value) e := by
  refine ⟨h.keys, fun j => ?_⟩
  have hne : e ≠ idx := fun heq => h.keys k (hk.trans heq.symm)
  by_cases hj : j = i
  · subst hj
    simp [TlsShared.setValue, Function.update_of_ne hne, h.values j]
  · simp [TlsShared.setValue, Function.update_of_ne hj, h.values j]

theorem KeysInv.setValue (h : KeysInv freeFunc s) (hk : s.keyIdx k = idx) :
    KeysInv freeFunc (s.setValue i idx value) :=
  h.congr rfl rfl rfl fun _ => unused_setValue hk

theorem others_setValue (hij : j ≠ i) (hk : s.keyIdx k = idx) : Others j s (s.setValue i idx value) := by
  refine ⟨⟨fun _ _ => rfl, fun _ h h' => absurd h h', fun e _ => ?_, fun _ hd => hd⟩, Iff.rfl, fun _ => ?_⟩
  · simp [TlsShared.setValue, Function.update_of_ne hij]
  · exact ⟨rfl, rfl, rfl, fun _ => unused_setValue hk⟩

end

/-! ## What a thread knows -/

def KeyPlace.Knows (freeFunc : κ → ppointer) (s : TlsShared ι κ) (i : ι) (seen : ppointer) (k : κ) :
    KeyPlace κ → Prop
  | .get | .lock => s.mutex ≠ some i
  | .check => s.mutex = some i
  | .alloc => s.mutex = some i ∧ s.keyIdx k = TLS_OUT_OF_INDEXES
  | .malloc idx => Pending s i k idx ∧ (∀ d ∈ s.destructors, d.key_idx ≠ idx) ∧ freeFunc k ≠ NULL
  | .head idx => Pending s i k idx ∧ (∀ d ∈ s.destructors, d.key_idx ≠ idx) ∧ freeFunc k ≠ NULL
  | .swap idx next => Pending s i k idx ∧ (∀ d ∈ s.destructors, d.key_idx ≠ idx) ∧ freeFunc k ≠ NULL ∧
    s.destructors = next
  | .free idx => Pending s i k idx ∧ ∀ d ∈ s.destructors, d.key_idx ≠ idx
  | .store idx => Pending s i k idx ∧ (∀ d ∈ s.destructors, d.key_idx = idx → d.key = k) ∧
    (freeFunc k ≠ NULL → ⟨idx, freeFunc k, k⟩ ∈ s.destructors)
  | .unlock r => s.mutex = some i ∧ s.keyIdx k = r
  | .use r => s.mutex ≠ some i ∧ if r = TLS_OUT_OF_INDEXES then seen = NULL else s.keyIdx k = r
  | .destroy idx old => s.mutex ≠ some i ∧ idx ≠ TLS_OUT_OF_INDEXES ∧ s.keyIdx k = idx ∧ freeFunc k ≠ NULL ∧
    seen = old ∧ old ≠ NULL
  | .assign idx _ => s.mutex ≠ some i ∧ idx ≠ TLS_OUT_OF_INDEXES ∧ s.keyIdx k = idx

/-- What others do takes nothing from a thread. -/
theorem KeyPlace.Knows.other {seen : ppointer} {place : KeyPlace κ} (h : place.Knows freeFunc s i seen k)
    (hs : Others i s s') : place.Knows freeFunc s' i seen k := by
  obtain ⟨⟨hkeys, -, -, -⟩, hmutex, hheld⟩ := hs
  have hpending : ∀ {idx}, Pending s i k idx → Pending s' i k idx ∧ s'.destructors = s.destructors := by
    intro idx hp
    obtain ⟨hkey, hallocated, hdestructors, hunused⟩ := hheld hp.mutex
    exact ⟨⟨hmutex.2 hp.mutex, hkey ▸ hp.unset, hp.index, hallocated ▸ hp.allocated, hunused _ hp.unused⟩,
      hdestructors⟩
  have hout : s.mutex ≠ some i → s'.mutex ≠ some i := fun hnot h' => hnot (hmutex.1 h')
  have hkey : ∀ {idx}, idx ≠ TLS_OUT_OF_INDEXES → s.keyIdx k = idx → s'.keyIdx k = idx := by
    rintro idx hidx rfl
    exact hkeys k hidx
  cases place with
  | get => exact hout h
  | lock => exact hout h
  | check => exact hmutex.2 h
  | alloc => exact ⟨hmutex.2 h.1, (hheld h.1).1 ▸ h.2⟩
  | malloc idx =>
    obtain ⟨hp, hfresh, hfunc⟩ := h
    obtain ⟨hp', hdestructors⟩ := hpending hp
    exact ⟨hp', hdestructors ▸ hfresh, hfunc⟩
  | head idx =>
    obtain ⟨hp, hfresh, hfunc⟩ := h
    obtain ⟨hp', hdestructors⟩ := hpending hp
    exact ⟨hp', hdestructors ▸ hfresh, hfunc⟩
  | swap idx next =>
    obtain ⟨hp, hfresh, hfunc, hnext⟩ := h
    obtain ⟨hp', hdestructors⟩ := hpending hp
    exact ⟨hp', hdestructors ▸ hfresh, hfunc, hdestructors.trans hnext⟩
  | free idx =>
    obtain ⟨hp, hfresh⟩ := h
    obtain ⟨hp', hdestructors⟩ := hpending hp
    exact ⟨hp', hdestructors ▸ hfresh⟩
  | store idx =>
    obtain ⟨hp, howner, hmem⟩ := h
    obtain ⟨hp', hdestructors⟩ := hpending hp
    exact ⟨hp', hdestructors ▸ howner, hdestructors ▸ hmem⟩
  | unlock r => exact ⟨hmutex.2 h.1, (hheld h.1).1 ▸ h.2⟩
  | use r =>
    refine ⟨hout h.1, ?_⟩
    have hr := h.2
    by_cases heq : r = TLS_OUT_OF_INDEXES
    · rwa [if_pos heq] at hr ⊢
    · rw [if_neg heq] at hr ⊢
      exact hkey heq hr
  | destroy idx old =>
    obtain ⟨hnot, hidx, hk, hrest⟩ := h
    exact ⟨hout hnot, hidx, hkey hidx hk, hrest⟩
  | assign idx destroyed =>
    obtain ⟨hnot, hidx, hk⟩ := h
    exact ⟨hout hnot, hidx, hkey hidx hk⟩

/-- **One step of `pp_uthread_get_tls_key`.** -/
theorem ppUthreadGetTlsKey_step [DecidableEq κ] {seen : ppointer} {place place' : KeyPlace κ} {a : TlsMove κ}
    (h : KeysInv freeFunc s) (hk : place.Knows freeFunc s i seen k)
    (hseen : s.keyIdx k = TLS_OUT_OF_INDEXES → seen = NULL)
    (hstep : ppUthreadGetTlsKey freeFunc i s k a place = some (s', place')) :
    KeysInv freeFunc s' ∧ Grows i s s' ∧ (∀ j, j ≠ i → Others j s s') ∧ place'.Knows freeFunc s' i seen k ∧
      ∀ idx, place' ≠ .assign idx true := by
  cases place with
  | get =>
    cases hstep
    refine ⟨h, .refl, fun _ _ => .refl, ?_, ?_⟩
    · by_cases hkey : s.keyIdx k = TLS_OUT_OF_INDEXES
      · rw [if_neg (not_not.2 hkey)]
        exact hk
      · rw [if_pos hkey]
        exact ⟨hk, by rw [if_neg hkey]⟩
    · intro idx
      split_ifs <;> exact fun heq => by cases heq
  | lock =>
    by_cases hfree : s.mutex = none
    · simp only [ppUthreadGetTlsKey, if_pos hfree] at hstep
      cases hstep
      refine ⟨h.setMutex _, ⟨fun _ _ => rfl, fun _ h h' => absurd h h', fun _ _ => rfl, fun _ h => h⟩,
        fun j hj => others_setMutex hj (.inl ⟨hfree, rfl⟩), rfl, fun idx heq => ?_⟩
      cases heq
    · simp only [ppUthreadGetTlsKey, if_neg hfree] at hstep
      cases hstep
  | check =>
    cases hstep
    refine ⟨h, .refl, fun _ _ => .refl, ?_, ?_⟩
    · by_cases hkey : s.keyIdx k = TLS_OUT_OF_INDEXES
      · rw [if_pos hkey]
        exact ⟨hk, hkey⟩
      · rw [if_neg hkey]
        exact ⟨hk, rfl⟩
    · intro idx
      split_ifs <;> exact fun heq => by cases heq
  | alloc =>
    cases a with
    | tlsAlloc idx =>
      by_cases hout : idx = TLS_OUT_OF_INDEXES
      · simp only [ppUthreadGetTlsKey, if_pos hout] at hstep
        cases hstep
        exact ⟨h, .refl, fun _ _ => .refl, hk, fun _ heq => by cases heq⟩
      by_cases hidx : s.allocated idx = true
      · simp only [ppUthreadGetTlsKey, if_neg hout, if_pos hidx] at hstep
        cases hstep
      · simp only [ppUthreadGetTlsKey, if_neg hout, if_neg hidx] at hstep
        cases hstep
        rw [Bool.not_eq_true] at hidx
        have hp : Pending (s.alloc idx) i k idx :=
          ⟨hk.1, hk.2, hout, Function.update_self .., .alloc h hidx hout⟩
        have hfresh : ∀ d ∈ (s.alloc idx).destructors, d.key_idx ≠ idx := by
          rintro d hd rfl
          rw [(h.index d hd).2] at hidx
          cases hidx
        refine ⟨h.alloc hidx, grows_alloc h hidx, fun j hj => (grows_alloc h hidx).others hj hk.1 hk.1, ?_, ?_⟩
        · by_cases hfunc : freeFunc k = NULL
          · rw [if_neg (not_not.2 hfunc)]
            exact ⟨hp, fun d hd heq => absurd heq (hfresh d hd), fun hnot => absurd hfunc hnot⟩
          · rw [if_pos hfunc]
            exact ⟨hp, hfresh, hfunc⟩
        · intro idx
          split_ifs <;> exact fun heq => by cases heq
    | call c => cases hstep
    | detach => cases hstep
    | next => cases hstep
    | answer ok => cases hstep
  | malloc idx =>
    cases a with
    | answer ok =>
      cases hstep
      refine ⟨h, .refl, fun _ _ => .refl, ?_, ?_⟩
      · cases ok with
        | true => exact hk
        | false => exact ⟨hk.1, hk.2.1⟩
      · intro idx
        split_ifs <;> exact fun heq => by cases heq
    | call c => cases hstep
    | detach => cases hstep
    | next => cases hstep
    | tlsAlloc idx => cases hstep
  | head idx =>
    cases hstep
    obtain ⟨hp, hfresh, hfunc⟩ := hk
    exact ⟨h, .refl, fun _ _ => .refl, ⟨hp, hfresh, hfunc, rfl⟩, fun _ heq => by cases heq⟩
  | swap idx next =>
    obtain ⟨hp, hfresh, hfunc, rfl⟩ := hk
    simp only [ppUthreadGetTlsKey, if_true] at hstep
    cases hstep
    have hgrows : ∀ j, Grows j s { s with destructors := ⟨idx, freeFunc k, k⟩ :: s.destructors } := fun j =>
      ⟨fun _ _ => rfl, fun _ h h' => absurd h h', fun _ _ => rfl, fun _ hd => List.mem_cons_of_mem _ hd⟩
    refine ⟨h.register hp hfunc, hgrows i, fun j hj => (hgrows j).others hj hp.mutex hp.mutex, ⟨?_, ?_, ?_⟩,
      fun _ heq => by cases heq⟩
    · exact ⟨hp.mutex, hp.unset, hp.index, hp.allocated, hp.unused.keys, hp.unused.values⟩
    · intro d hd heq
      rcases List.mem_cons.1 hd with rfl | hd
      · rfl
      · exact absurd heq (hfresh d hd)
    · exact fun _ => List.mem_cons_self
  | free idx =>
    cases a with
    | answer ok =>
      cases hstep
      obtain ⟨hp, hfresh⟩ := hk
      have hgrows : ∀ j, Grows j s { s with allocated := Function.update s.allocated idx !ok } := fun j =>
        ⟨fun _ _ => rfl, fun _ h h' => absurd h h', fun _ _ => rfl, fun _ hd => hd⟩
      exact ⟨h.dealloc hp hfresh ok, hgrows i, fun j hj => (hgrows j).others hj hp.mutex hp.mutex,
        ⟨hp.mutex, hp.unset⟩,
        fun _ heq => by cases heq⟩
    | call c => cases hstep
    | detach => cases hstep
    | next => cases hstep
    | tlsAlloc idx => cases hstep
  | store idx =>
    cases hstep
    obtain ⟨hp, howner, hmem⟩ := hk
    exact ⟨h.publish hp howner hmem, grows_publish hp,
      fun j hj => (grows_publish hp).others hj hp.mutex hp.mutex, ⟨hp.mutex, Function.update_self ..⟩,
      fun _ heq => by cases heq⟩
  | unlock r =>
    cases hstep
    obtain ⟨hmutex, rfl⟩ := hk
    refine ⟨h.setMutex _, ⟨fun _ _ => rfl, fun _ h h' => absurd h h', fun _ _ => rfl, fun _ h => h⟩,
      fun j hj => others_setMutex hj (.inr ⟨hmutex, rfl⟩), ⟨(fun heq => by cases heq), ?_⟩,
        fun _ heq => by cases heq⟩
    by_cases hkey : s.keyIdx k = TLS_OUT_OF_INDEXES
    · rw [if_pos hkey]
      exact hseen hkey
    · rw [if_neg hkey]
  | use r => cases hstep
  | destroy idx old => cases hstep
  | assign idx destroyed => cases hstep

/-! ## What a thread sees -/

section
variable [DecidableEq κ] {log log' : List (TlsEvent κ)} {value : ppointer} {l : TlsThread κ}

/-- The values of the thread are those of its log. -/
def Link (s : TlsShared ι κ) (i : ι) (log : List (TlsEvent κ)) : Prop :=
  ∀ k, view log k = if s.keyIdx k = TLS_OUT_OF_INDEXES then NULL else s.values i (s.keyIdx k)

theorem Link.unset (h : Link s i log) (hk : s.keyIdx k = TLS_OUT_OF_INDEXES) : view log k = NULL := by
  rw [h k, if_pos hk]

theorem Link.set (h : Link s i log) (hk : s.keyIdx k = idx) (hidx : idx ≠ TLS_OUT_OF_INDEXES) :
    s.values i idx = view log k := by
  rw [h k, hk, if_neg hidx]

theorem Link.key_ne (h : Link s i log) (hk : view log k ≠ NULL) : s.keyIdx k ≠ TLS_OUT_OF_INDEXES :=
  fun hkey => hk (h.unset hkey)

theorem Link.grow (h : Link s i log) (hs : Grows i s s') : Link s' i log := by
  intro k
  by_cases hk : s.keyIdx k = TLS_OUT_OF_INDEXES
  · rw [h.unset hk]
    split_ifs with hk'
    · rfl
    · exact (hs.fresh k hk hk').symm
  · rw [hs.keys k hk, hs.values k hk]
    exact h k

theorem Link.setValue [DecidableEq ι] (h : Link s i log) (hs : KeysInv freeFunc s) (hk : s.keyIdx k = idx)
    (hidx : idx ≠ TLS_OUT_OF_INDEXES) (hlog : ∀ k', view log' k' = if k' = k then value else view log k') :
    Link (s.setValue i idx value) i log' := by
  intro k'
  change view log' k' = if s.keyIdx k' = TLS_OUT_OF_INDEXES then NULL else
    Function.update s.values i (Function.update (s.values i) idx value) i (s.keyIdx k')
  rw [hlog, Function.update_self]
  by_cases heq : k' = k
  · subst heq
    rw [if_pos rfl, hk, if_neg hidx, Function.update_self]
  · have hne : s.keyIdx k' ≠ idx := by
      intro hsame
      refine heq (hs.injective k' k (hsame.trans hk.symm) ?_)
      rwa [hsame]
    rw [if_neg heq, Function.update_of_ne hne]
    exact h k'

/-- Each value was destroyed by the function of its key. -/
def Destroys (freeFunc : κ → ppointer) (log : List (TlsEvent κ)) : Prop :=
  ∀ k func value, .destroyed k func value ∈ log → func = freeFunc k ∧ func ≠ NULL ∧ value ≠ NULL

def DetachPlace.Knows (freeFunc : κ → ppointer) (s : TlsShared ι κ) (log : List (TlsEvent κ)) :
    DetachPlace κ → Prop
  | .list => True
  -- in a pass that has destroyed nothing, the values that are left are those of the destructors to come
  | .walk was_called destr => (∀ d ∈ destr, d ∈ s.destructors) ∧ (was_called = false → ∀ k, freeFunc k ≠ NULL →
    view log k ≠ NULL → ⟨s.keyIdx k, freeFunc k, k⟩ ∈ destr)
  | .clear d next value => d ∈ s.destructors ∧ (∀ e ∈ next, e ∈ s.destructors) ∧ value ≠ NULL ∧
    d.key_idx ≠ TLS_OUT_OF_INDEXES ∧ s.keyIdx d.key = d.key_idx ∧ view log d.key = value
  | .destroy d next value => d ∈ s.destructors ∧ (∀ e ∈ next, e ∈ s.destructors) ∧ value ≠ NULL
  | .callback next => ∀ e ∈ next, e ∈ s.destructors
  | .finished => ∀ k, freeFunc k ≠ NULL → view log k = NULL

theorem DetachPlace.Knows.grow {place : DetachPlace κ} (h : place.Knows freeFunc s log) (hlink : Link s i log)
    (hs : Grows i s s') : place.Knows freeFunc s' log := by
  cases place with
  | list => trivial
  | walk was_called destr =>
    obtain ⟨hmem, hleft⟩ := h
    refine ⟨fun d hd => hs.destructors d (hmem d hd), fun hcalled k hfunc hk => ?_⟩
    rw [hs.keys k (hlink.key_ne hk)]
    exact hleft hcalled k hfunc hk
  | clear d next value =>
    obtain ⟨hd, hnext, hvalue, hidx, hkey, hview⟩ := h
    refine ⟨hs.destructors d hd, fun e he => hs.destructors e (hnext e he), hvalue, hidx, ?_, hview⟩
    rw [hs.keys d.key (by rwa [hkey]), hkey]
  | destroy d next value =>
    obtain ⟨hd, hnext, hvalue⟩ := h
    exact ⟨hs.destructors d hd, fun e he => hs.destructors e (hnext e he), hvalue⟩
  | callback next => exact fun e he => hs.destructors e (h e he)
  | finished => exact h

/-- Behind `free_func` in `p_uthread_replace_local`, the value that the thread sees is one that was destroyed. -/
def KeyPlace.live (log : List (TlsEvent κ)) (k : κ) : KeyPlace κ → κ → ppointer → ℕ
  | .assign _ true => seenBut log k
  | _ => seen log

theorem KeyPlace.live_of_ne {place : KeyPlace κ} (h : ∀ idx, place ≠ .assign idx true) :
    place.live log k = seen log := by
  cases place with
  | assign idx destroyed =>
    cases destroyed with
    | true => exact absurd rfl (h idx)
    | false => rfl
  | _ => rfl

/-- Before `free_func`, the thread has the value in its hands. -/
def DetachPlace.live (log : List (TlsEvent κ)) : DetachPlace κ → κ → ppointer → ℕ
  | .destroy d _ value => plus (seen log) d.key value
  | _ => seen log

/-- The values that have been stored, and neither destroyed nor dropped. -/
def TlsThread.live (l : TlsThread κ) : κ → ppointer → ℕ :=
  match l.call with
  | some (c, place) => place.live l.log c.key
  | none => l.detach.elim (seen l.log) fun place => place.live l.log

structure ThreadInv (freeFunc : κ → ppointer) (s : TlsShared ι κ) (i : ι) (l : TlsThread κ) : Prop where
  link : Link s i l.log
  coherent : Coherent l.log
  destroys : Destroys freeFunc l.log
  balanced : Balanced freeFunc l.log l.live
  call : l.call.elim (s.mutex ≠ some i) fun x => x.2.Knows freeFunc s i (view l.log x.1.key) x.1.key
  detach : ∀ place ∈ l.detach, place.Knows freeFunc s l.log
  nested : l.call = none ∨ l.MayCall

theorem ThreadInv.other (h : ThreadInv freeFunc s i l) (hs : Others i s s') : ThreadInv freeFunc s' i l := by
  obtain ⟨hlink, hcoherent, hdestroys, hbalanced, hcall, hdetach, hnested⟩ := h
  refine ⟨hlink.grow hs.toGrows, hcoherent, hdestroys, hbalanced, ?_, ?_, hnested⟩
  · cases hl : l.call with
    | none =>
      rw [hl] at hcall
      exact fun h' => hcall (hs.mutex.1 h')
    | some x =>
      rw [hl] at hcall
      exact KeyPlace.Knows.other hcall hs
  · intro place hplace
    exact (hdetach place hplace).grow hlink hs.toGrows

theorem live_of_mayCall (h : l.MayCall) (log : List (TlsEvent κ)) :
    TlsThread.live ⟨none, l.detach, log⟩ = seen log := by
  obtain ⟨call, detach, log₀⟩ := l
  cases detach with
  | none => rfl
  | some place =>
    cases place with
    | callback next => rfl
    | _ => exact absurd h id

omit [DecidableEq κ] in
theorem detach_of_mayCall {place : DetachPlace κ} (h : l.MayCall) (hplace : place ∈ l.detach) :
    ∃ next, place = .callback next := by
  obtain ⟨call, detach, log⟩ := l
  obtain rfl : detach = some place := hplace
  cases place with
  | callback next => exact ⟨next, rfl⟩
  | _ => exact absurd h id

omit [DecidableEq κ] in
theorem Destroys.cons {e : TlsEvent κ} (h : Destroys freeFunc log)
    (he : ∀ k func value, e = .destroyed k func value → func = freeFunc k ∧ func ≠ NULL ∧ value ≠ NULL) :
    Destroys freeFunc (e :: log) := by
  intro k func value hmem
  rcases List.mem_cons.1 hmem with heq | hmem
  · exact he k func value heq.symm
  · exact h k func value hmem

omit [DecidableEq κ] in
theorem Destroys.drop {old : ppointer} (h : Destroys freeFunc log) : Destroys freeFunc (drop k old log) := by
  rw [Windows.drop]
  split_ifs
  · exact h
  · exact h.cons fun _ _ _ heq => by cases heq

/-! ## Steps -/

variable {c : KeyCall κ} {place : KeyPlace κ}

/-- A step in which the thread stores nothing. -/
theorem ThreadInv.notes {call : Option (KeyCall κ × KeyPlace κ)} (hl : ThreadInv freeFunc s i l) (hmay : l.MayCall)
    (hview : ∀ k, view log k = view l.log k) (hcoherent : Coherent log) (hdestroys : Destroys freeFunc log)
    (hbalanced : Balanced freeFunc log (TlsThread.live ⟨call, l.detach, log⟩))
    (hcall : call.elim (s.mutex ≠ some i) fun x => x.2.Knows freeFunc s i (view log x.1.key) x.1.key) :
    ThreadInv freeFunc s i ⟨call, l.detach, log⟩ := by
  refine ⟨fun k => (hview k).trans (hl.link k), hcoherent, hdestroys, hbalanced, hcall, ?_, .inr hmay⟩
  intro place hplace
  obtain ⟨next, rfl⟩ := detach_of_mayCall hmay hplace
  exact hl.detach _ hplace

/-- The end of a call that stores a value. -/
theorem ThreadInv.store [DecidableEq ι] (hs : KeysInv freeFunc s) (hl : ThreadInv freeFunc s i l)
    (hmay : l.MayCall)
    (hmutex : s.mutex ≠ some i) (hk : s.keyIdx k = idx) (hidx : idx ≠ TLS_OUT_OF_INDEXES)
    (hview : ∀ k, view log k = view l.log k) (hcoherent : Coherent log) (hdestroys : Destroys freeFunc log)
    (hbalanced : Balanced freeFunc log (seenBut l.log k)) :
    ThreadInv freeFunc (s.setValue i idx value) i ⟨none, l.detach, .stored k value :: log⟩ := by
  have hbut : seenBut log k = seenBut l.log k := by
    funext k' value'
    simp only [seenBut, seen, hview]
  refine ⟨hl.link.setValue hs hk hidx fun k' => ?_, hcoherent,
    hdestroys.cons (fun _ _ _ heq => by cases heq), ?_, hmutex, ?_,
    .inl rfl⟩
  · rw [view, hview]
  · rw [live_of_mayCall hmay, seen_stored, hbut]
    exact hbalanced.stored
  · intro place hplace
    obtain ⟨next, rfl⟩ := detach_of_mayCall hmay hplace
    exact hl.detach _ hplace

/-- **One step behind `pp_uthread_get_tls_key`.** -/
theorem useStep_step [DecidableEq ι] {s' : TlsShared ι κ} {place' : Option (KeyPlace κ)} (hs : KeysInv freeFunc s)
    (hl : ThreadInv freeFunc s i l) (hcall : l.call = some (c, place))
    (hstep : useStep freeFunc i s l.log c place = some (s', place', log)) :
    KeysInv freeFunc s' ∧ (∀ j, j ≠ i → Others j s s') ∧
      ThreadInv freeFunc s' i ⟨place'.map fun place => (c, place), l.detach, log⟩ := by
  have hmay : l.MayCall := hl.nested.resolve_left fun hnone => by rw [hnone] at hcall; cases hcall
  have hknows := hl.call
  have hbalanced := hl.balanced
  rw [TlsThread.live, hcall] at hbalanced
  rw [hcall] at hknows
  cases c with
  | getLocal k =>
    cases place with
    | use r =>
      cases hstep
      obtain ⟨hmutex, hr⟩ := hknows
      refine ⟨hs, fun _ _ => .refl, hl.notes hmay (fun _ => rfl) ⟨?_, hl.coherent⟩
        (hl.destroys.cons fun _ _ _ heq => by cases heq) ?_ hmutex⟩
      · by_cases hout : r = TLS_OUT_OF_INDEXES
        · rw [if_pos hout] at hr ⊢
          exact hr.symm
        · rw [if_neg hout] at hr ⊢
          exact hl.link.set hr hout
      · rw [Option.map_none, live_of_mayCall hmay]
        exact hbalanced.got
    | _ => cases hstep
  | setLocal k value =>
    cases place with
    | use r =>
      obtain ⟨hmutex, hr⟩ := hknows
      by_cases hout : r = TLS_OUT_OF_INDEXES
      · simp only [useStep, ne_eq, hout, not_true_eq_false, if_false] at hstep
        cases hstep
        refine ⟨hs, fun _ _ => .refl, hl.notes hmay (fun _ => rfl) hl.coherent hl.destroys ?_ hmutex⟩
        rw [Option.map_none, live_of_mayCall hmay]
        exact hbalanced
      · simp only [useStep, ne_eq, hout, not_false_eq_true, if_true] at hstep
        cases hstep
        rw [if_neg hout] at hr
        rw [hl.link.set hr hout]
        exact ⟨hs.setValue hr, fun j hj => others_setValue hj hr,
          hl.store hs hmay hmutex hr hout (fun k' => view_drop _ k')
          (coherent_drop hl.coherent) hl.destroys.drop hbalanced.drop⟩
    | _ => cases hstep
  | replaceLocal k value =>
    cases place with
    | use r =>
      obtain ⟨hmutex, hr⟩ := hknows
      by_cases hout : r = TLS_OUT_OF_INDEXES
      · simp only [useStep, if_pos hout] at hstep
        cases hstep
        refine ⟨hs, fun _ _ => .refl, hl.notes hmay (fun _ => rfl) hl.coherent hl.destroys ?_ hmutex⟩
        rw [Option.map_none, live_of_mayCall hmay]
        exact hbalanced
      rw [if_neg hout] at hr
      by_cases hold : s.values i r ≠ NULL ∧ freeFunc k ≠ NULL
      · simp only [useStep, if_neg hout, if_pos hold] at hstep
        cases hstep
        exact ⟨hs, fun _ _ => .refl, hl.notes hmay (fun _ => rfl) hl.coherent hl.destroys hbalanced
          ⟨hmutex, hout, hr, hold.2, (hl.link.set hr hout).symm, hold.1⟩⟩
      · simp only [useStep, if_neg hout, if_neg hold] at hstep
        cases hstep
        exact ⟨hs, fun _ _ => .refl,
          hl.notes hmay (fun _ => rfl) hl.coherent hl.destroys hbalanced ⟨hmutex, hout, hr⟩⟩
    | destroy r old =>
      cases hstep
      obtain ⟨hmutex, hout, hr, hfunc, hold, hnull⟩ := hknows
      refine ⟨hs, fun _ _ => .refl,
        hl.notes hmay (fun _ => rfl) hl.coherent (hl.destroys.cons fun _ _ _ heq => ?_) ?_
        ⟨hmutex, hout, hr⟩⟩
      · cases heq
        exact ⟨rfl, hfunc, hnull⟩
      · refine Balanced.destroyed ?_
        change view l.log k = old at hold
        change Balanced freeFunc l.log (plus (seenBut l.log k) k old)
        rw [← hold, plus_seenBut]
        exact hbalanced
    | assign r destroyed =>
      cases hstep
      obtain ⟨hmutex, hout, hr⟩ := hknows
      rw [hl.link.set hr hout]
      refine ⟨hs.setValue hr, fun j hj => others_setValue hj hr,
        hl.store hs hmay hmutex hr hout (fun k' => ?_) ?_ ?_ ?_⟩
      · cases destroyed with
        | true => rfl
        | false => exact view_drop _ k'
      · cases destroyed with
        | true => exact hl.coherent
        | false => exact coherent_drop hl.coherent
      · cases destroyed with
        | true => exact hl.destroys
        | false => exact hl.destroys.drop
      · cases destroyed with
        | true => exact hbalanced
        | false => exact hbalanced.drop
    | _ => cases hstep

/-- **One step of `p_uthread_win32_thread_detach`.** -/
theorem detachStep_step [DecidableEq ι] {s' : TlsShared ι κ} {place place' : DetachPlace κ}
    (hs : KeysInv freeFunc s)
    (hl : ThreadInv freeFunc s i l) (hcall : l.call = none) (hdetach : l.detach = some place)
    (hstep : detachStep i s l.log place = some (s', place', log)) :
    KeysInv freeFunc s' ∧ (∀ j, j ≠ i → Others j s s') ∧ ThreadInv freeFunc s' i ⟨none, some place', log⟩ := by
  obtain ⟨hlink, hcoherent, hdestroys, hbalanced, hmutex, hknows, -⟩ := hl
  specialize hknows place hdetach
  rw [TlsThread.live, hcall, hdetach] at hbalanced
  rw [hcall] at hmutex
  -- a step that neither stores nor destroys a value
  have hwalk : ∀ place', place'.live l.log = place.live l.log → place'.Knows freeFunc s l.log →
      ThreadInv freeFunc s i ⟨none, some place', l.log⟩ := by
    intro place' hlive hplace'
    refine ⟨hlink, hcoherent, hdestroys, ?_, hmutex, fun e he => ?_, .inl rfl⟩
    · change Balanced freeFunc l.log (place'.live l.log)
      rw [hlive]
      exact hbalanced
    · obtain rfl := Option.some.inj he
      exact hplace'
  cases place with
  | list =>
    cases hstep
    refine ⟨hs, fun _ _ => .refl, hwalk _ rfl ⟨fun _ hd => hd, fun _ k hfunc hk => ?_⟩⟩
    exact hs.registered k (hlink.key_ne hk) hfunc
  | walk was_called destr =>
    obtain ⟨hmem, hleft⟩ := hknows
    cases destr with
    | nil =>
      cases hstep
      refine ⟨hs, fun _ _ => .refl, ?_⟩
      cases was_called with
      | true => exact hwalk _ rfl trivial
      | false =>
        refine hwalk _ rfl fun k hfunc => ?_
        by_contra hk
        cases hleft rfl k hfunc hk
    | cons d next =>
      have hd := hmem d List.mem_cons_self
      have hnext : ∀ e ∈ next, e ∈ s.destructors := fun e he => hmem e (List.mem_cons_of_mem _ he)
      cases hstep
      refine ⟨hs, fun _ _ => .refl, ?_⟩
      by_cases hvalue : s.values i d.key_idx ≠ NULL ∧ d.free_func ≠ NULL
      · rw [if_pos hvalue]
        have hkey : s.keyIdx d.key = d.key_idx :=
          (hs.owner d hd).resolve_right fun hunused => hvalue.1 (hunused.values i)
        exact hwalk _ rfl ⟨hd, hnext, hvalue.1, (hs.index d hd).1, hkey, (hlink.set hkey (hs.index d hd).1).symm⟩
      · rw [if_neg hvalue]
        refine hwalk _ rfl ⟨hnext, fun hcalled k hfunc hk => ?_⟩
        rcases List.mem_cons.1 (hleft hcalled k hfunc hk) with rfl | hin
        · refine absurd ⟨?_, hfunc⟩ hvalue
          rw [hlink.set rfl (hlink.key_ne hk)]
          exact hk
        · exact hin
  | clear d next value =>
    cases hstep
    obtain ⟨hd, hnext, hvalue, hidx, hkey, hview⟩ := hknows
    refine ⟨hs.setValue hkey, fun j hj => others_setValue hj hkey, hlink.setValue hs hkey hidx fun _ => rfl,
      hcoherent,
      hdestroys.cons (fun _ _ _ heq => by cases heq), ?_, hmutex, fun e he => ?_, .inl rfl⟩
    · refine hbalanced.cleared.congr fun k' value' hvalue' => ?_
      change plus (seen (.cleared d.key :: l.log)) d.key value k' value' = seen l.log k' value'
      rw [plus, seenBut_cleared hvalue', ← plus_seenBut (k := d.key), plus, hview]
    · obtain rfl := Option.some.inj he
      exact ⟨hd, hnext, hvalue⟩
  | destroy d next value =>
    cases hstep
    obtain ⟨hd, hnext, hvalue⟩ := hknows
    obtain ⟨hfunc, hnull⟩ := hs.func d hd
    refine ⟨hs, fun _ _ => .refl, hlink, hcoherent, hdestroys.cons fun _ _ _ heq => ?_, ?_, hmutex, fun e he => ?_,
      .inl rfl⟩
    · cases heq
      exact ⟨hfunc, hnull, hvalue⟩
    · rw [hfunc]
      exact hbalanced.destroyed
    · obtain rfl := Option.some.inj he
      exact hnext
  | callback next =>
    cases hstep
    exact ⟨hs, fun _ _ => .refl, hwalk _ rfl ⟨hknows, fun hcalled => by cases hcalled⟩⟩
  | finished => cases hstep

end

/-! ## Runs -/

section
variable [DecidableEq ι] [DecidableEq κ]

structure TlsInv (freeFunc : κ → ppointer) (c : Config ι (TlsShared ι κ) (TlsThread κ)) : Prop where
  keys : KeysInv freeFunc c.shared
  threads : ∀ i, ThreadInv freeFunc c.shared i (c.loc i)

theorem TlsInv.set {c : Config ι (TlsShared ι κ) (TlsThread κ)} {l : TlsThread κ} (h : TlsInv freeFunc c)
    (hs : KeysInv freeFunc s ∧ (∀ j, j ≠ i → Others j c.shared s) ∧ ThreadInv freeFunc s i l) :
    TlsInv freeFunc (c.set i s l) :=
  ⟨hs.1, forall_set hs.2.2 fun j hj => (h.threads j).other (hs.2.1 j hj)⟩

theorem TlsInv.step {c : Config ι (TlsShared ι κ) (TlsThread κ)} {a : TlsMove κ} {l : TlsThread κ}
    (h : TlsInv freeFunc c)
    (hstep : tlsStep freeFunc i a c.shared (c.loc i) = some (s, l)) : TlsInv freeFunc (c.set i s l) := by
  refine h.set ?_
  have hl := h.threads i
  unfold tlsStep at hstep
  cases hcall : (c.loc i).call with
  | none =>
    simp only [hcall] at hstep
    have hmutex := hl.call
    rw [hcall] at hmutex
    cases a with
    | call e =>
      by_cases hmay : (c.loc i).MayCall
      · simp only [if_pos hmay] at hstep
        cases hstep
        have hbalanced := hl.balanced
        refine ⟨h.keys, fun _ _ => .refl, hl.notes hmay (fun _ => rfl) hl.coherent hl.destroys ?_ hmutex⟩
        have hlive := live_of_mayCall hmay (c.loc i).log
        rw [← hcall] at hlive
        rw [hlive] at hbalanced
        exact hbalanced
      · simp only [if_neg hmay] at hstep
        cases hstep
    | detach =>
      by_cases hdetach : (c.loc i).detach = none
      · simp only [if_pos hdetach] at hstep
        cases hstep
        refine ⟨h.keys, fun _ _ => .refl, hl.link, hl.coherent, hl.destroys, ?_, hmutex, fun e he => ?_, .inl rfl⟩
        · have hbalanced := hl.balanced
          rw [TlsThread.live, hcall, hdetach] at hbalanced
          exact hbalanced
        · obtain rfl := Option.some.inj he
          trivial
      · simp only [if_neg hdetach] at hstep
        cases hstep
    | next =>
      obtain ⟨place, hdetach, hrest⟩ := Option.bind_eq_some_iff.1 hstep
      obtain ⟨⟨s', place', log⟩, hd, heq⟩ := Option.map_eq_some_iff.1 hrest
      cases heq
      exact detachStep_step h.keys hl hcall hdetach hd
    | tlsAlloc idx => cases hstep
    | answer ok => cases hstep
  | some x =>
    obtain ⟨e, place⟩ := x
    simp only [hcall] at hstep
    have hknows := hl.call
    have hbalanced := hl.balanced
    rw [hcall] at hknows
    by_cases huse : isUse place
    · rw [if_pos huse] at hstep
      obtain ⟨⟨s', place', log⟩, hu, heq⟩ := Option.map_eq_some_iff.1 hstep
      cases heq
      exact useStep_step h.keys hl hcall hu
    · rw [if_neg huse] at hstep
      obtain ⟨⟨s', place'⟩, hg, heq⟩ := Option.map_eq_some_iff.1 hstep
      cases heq
      obtain ⟨hkeys, hgrows, hothers, hplace, hassign⟩ := ppUthreadGetTlsKey_step h.keys hknows hl.link.unset hg
      refine ⟨hkeys, hothers, hl.link.grow hgrows, hl.coherent, hl.destroys, ?_, hplace, ?_, ?_⟩
      · rw [TlsThread.live, hcall] at hbalanced
        change Balanced freeFunc _ (place.live _ _) at hbalanced
        change Balanced freeFunc _ (place'.live _ _)
        rw [KeyPlace.live_of_ne hassign]
        rwa [KeyPlace.live_of_ne] at hbalanced
        rintro idx rfl
        exact huse rfl
      · intro p hp
        exact (hl.detach p hp).grow hl.link hgrows
      · exact .inr (hl.nested.resolve_left fun hnone => by rw [hnone] at hcall; cases hcall)

/-- The keys are new, and no thread has done anything. -/
def tlsInit : Config ι (TlsShared ι κ) (TlsThread κ) where
  shared := ⟨fun _ => TLS_OUT_OF_INDEXES, fun _ => false, fun _ _ => NULL, [], none⟩
  loc _ := ⟨none, none, []⟩

omit [DecidableEq ι] in
theorem tlsInv_init : TlsInv freeFunc (tlsInit : Config ι (TlsShared ι κ) (TlsThread κ)) := by
  constructor
  · constructor
    · exact fun k hk => absurd rfl hk
    · exact fun k _ _ hk => absurd rfl hk
    · exact fun k hk => absurd rfl hk
    · intro d hd
      cases hd
    · intro d hd
      cases hd
    · intro d hd
      cases hd
  · intro i
    refine ⟨fun _ => rfl, trivial, ?_, fun k value hvalue => ?_, ?_, ?_, .inl rfl⟩
    · intro k func value hmem
      cases hmem
    rotate_left
    · intro heq
      cases heq
    · intro place hplace
      cases hplace
    change 0 = 0 + 0 + seen [] k value
    rw [seen, view, if_neg hvalue.symm]

/-- **Thread-local values on Windows.**  Whatever any number of threads do with any number of keys, also from
    within the functions that free the values, and wherever the system or the allocator fails:
    * no two keys share an index, and a destructor is put on the list in one attempt;
    * `p_uthread_get_local` gives the value that the thread itself has last stored, or `NULL`;
    * what is destroyed is a value, by the function of its key;
    * what the thread sees is what the system has stored for it;
    * each value that a thread outside of the calls has stored is in place, or was destroyed once, or
      overwritten once;
    * and when a thread has been detached, none is left in place, or stored, under a key that has such a
      function. -/
theorem tlsWindows {c : Config ι (TlsShared ι κ) (TlsThread κ)} {xs : List (ι × TlsMove κ)}
    (freeFunc : κ → ppointer)
    (hrun : run (tlsStep freeFunc) tlsInit xs = some c) :
    (∀ k k', c.shared.keyIdx k = c.shared.keyIdx k' → c.shared.keyIdx k ≠ TLS_OUT_OF_INDEXES → k = k') ∧
    (∀ i e idx next, (c.loc i).call = some (e, .swap idx next) → c.shared.destructors = next) ∧
    ∀ i, Coherent (c.loc i).log ∧ Destroys freeFunc (c.loc i).log ∧
      (∀ k, c.shared.keyIdx k ≠ TLS_OUT_OF_INDEXES →
        c.shared.values i (c.shared.keyIdx k) = view (c.loc i).log k) ∧
      ((c.loc i).call = none → (c.loc i).detach = none ∨ (c.loc i).detach = some .finished →
        Balanced freeFunc (c.loc i).log (seen (c.loc i).log)) ∧
      ((c.loc i).detach = some .finished → ∀ k, freeFunc k ≠ NULL → view (c.loc i).log k = NULL ∧
        (c.shared.keyIdx k ≠ TLS_OUT_OF_INDEXES → c.shared.values i (c.shared.keyIdx k) = NULL)) := by
  have h : TlsInv freeFunc c := Reaches.invariant (fun _ _ _ _ _ h hstep => h.step hstep) tlsInv_init ⟨xs, hrun⟩
  refine ⟨h.keys.injective, fun i e idx next hcall => ?_, fun i => ?_⟩
  · have hknows := (h.threads i).call
    rw [hcall] at hknows
    exact hknows.2.2.2
  · have hl := h.threads i
    have hstored : ∀ k, c.shared.keyIdx k ≠ TLS_OUT_OF_INDEXES →
        c.shared.values i (c.shared.keyIdx k) = view (c.loc i).log k := fun k hk => hl.link.set rfl hk
    refine ⟨hl.coherent, hl.destroys, hstored, fun hcall hdetach => ?_, fun hdetach k hfunc => ?_⟩
    · have hbalanced := hl.balanced
      rcases hdetach with hdetach | hdetach
      · rw [TlsThread.live, hcall, hdetach] at hbalanced
        exact hbalanced
      · rw [TlsThread.live, hcall, hdetach] at hbalanced
        exact hbalanced
    · have hnone : view (c.loc i).log k = NULL := hl.detach _ hdetach k hfunc
      exact ⟨hnone, fun hk => (hstored k hk).trans hnone⟩

/-- A thread stores a value, which is destroyed when the thread is detached. -/
def detachSchedule : List (Unit × TlsMove Bool) :=
  [.call (.setLocal true 7), .next, .next, .next, .tlsAlloc 3, .answer true, .next, .next, .next, .next, .next,
    .detach, .next, .next, .next, .next, .next, .next, .next, .next, .next].map fun a => ((), a)

theorem tlsWindows_detached : ∃ c, run (tlsStep fun _ => 1) tlsInit detachSchedule = some c ∧
    (c.loc ()).detach = some .finished ∧ Coherent (c.loc ()).log ∧ view (c.loc ()).log true = NULL := by
  have hfinished : (run (tlsStep fun _ => 1) tlsInit detachSchedule).map (fun c => (c.loc ()).detach) =
      some (some .finished) := rfl
  obtain ⟨c, hrun, hdetach⟩ := Option.map_eq_some_iff.1 hfinished
  obtain ⟨-, -, hthread⟩ := tlsWindows (fun _ => 1) hrun
  obtain ⟨hcoherent, -, -, -, hnone⟩ := hthread ()
  exact ⟨c, hrun, hdetach, hcoherent, (hnone hdetach true (by decide)).1⟩

end

end Windows

end Plibsys
