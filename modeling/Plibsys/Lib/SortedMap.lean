/-
  Finite maps as sorted lists of bindings, for keys that are compared by a function.

  Keys that compare equal are the same key, whichever of them is stored.  A list is split
  at a key into the bindings below, at and above it (`SplitAt`); the operations on maps are
  computed from any such split.
-/
import Mathlib.Data.Int.Notation
import Mathlib.Tactic.Common

namespace SortedMaps

variable {K V : Type}

/-- A comparison function that orders the keys totally: only the sign of `cmp` matters. -/
structure Comparison (K : Type) where
  cmp : K → K → ℤ
  swap : ∀ a b, cmp a b < 0 ↔ 0 < cmp b a
  le_trans : ∀ a b c, cmp a b ≤ 0 → cmp b c ≤ 0 → cmp a c ≤ 0

/-- A finite map: bindings with strictly increasing keys. -/
@[ext]
structure SortedMap (c : Comparison K) (V : Type) where
  entries : List (K × V)
  sorted : entries.Pairwise fun p q => c.cmp p.1 q.1 < 0

namespace Comparison
variable (c : Comparison K) {a b d : K}

theorem lt_of_le_of_lt (h₁ : c.cmp a b ≤ 0) (h₂ : c.cmp b d < 0) : c.cmp a d < 0 := by
  by_contra hn
  have hda : c.cmp d a ≤ 0 := by
    by_contra hlt
    exact hn ((c.swap a d).2 (Int.not_le.1 hlt))
  have hdb := c.le_trans d a b hda h₁
  have := (c.swap b d).1 h₂
  omega

theorem lt_trans (h₁ : c.cmp a b < 0) (h₂ : c.cmp b d < 0) : c.cmp a d < 0 :=
  c.lt_of_le_of_lt (Int.le_of_lt h₁) h₂

end Comparison

namespace SortedMap
variable {c : Comparison K} (m : SortedMap c V) (key : K) (value : V)

def empty : SortedMap c V := ⟨[], .nil⟩

def size : ℕ := m.entries.length

/-- The bindings of the key: at most one. -/
def bindings : List (K × V) := m.entries.filter fun p => c.cmp key p.1 = 0

def contains : Bool := !(m.bindings key).isEmpty

def find? : Option V := (m.bindings key).head?.map (·.2)

def insert : SortedMap c V where
  entries := m.entries.filter (fun p => 0 < c.cmp key p.1) ++
    (key, value) :: m.entries.filter fun p => c.cmp key p.1 < 0
  sorted := by
    have hlow : ∀ p ∈ m.entries.filter (fun p => 0 < c.cmp key p.1), c.cmp p.1 key < 0 := fun p hp =>
      (c.swap p.1 key).2 (by simpa using (List.mem_filter.1 hp).2)
    have hhigh : ∀ p ∈ m.entries.filter (fun p => c.cmp key p.1 < 0), c.cmp key p.1 < 0 := fun p hp => by
      simpa using (List.mem_filter.1 hp).2
    refine List.pairwise_append.2 ⟨m.sorted.filter _, List.pairwise_cons.2 ⟨hhigh, m.sorted.filter _⟩, ?_⟩
    intro p hp q hq
    rcases List.mem_cons.1 hq with rfl | hq
    · exact hlow p hp
    · exact c.lt_trans (hlow p hp) (hhigh q hq)

def erase : SortedMap c V where
  entries := m.entries.filter fun p => c.cmp key p.1 ≠ 0
  sorted := m.sorted.filter _

/-- Along the bindings, a key is first above, then at, then below them. -/
theorem directed : m.entries.Pairwise fun p q => c.cmp key p.1 ≤ 0 → c.cmp key q.1 < 0 :=
  m.sorted.imp fun hpq hp => c.lt_of_le_of_lt hp hpq

end SortedMap

/-- A list of bindings split at a key. -/
structure SplitAt (c : Comparison K) (key : K) (ps bef mid aft : List (K × V)) : Prop where
  eq : ps = bef ++ mid ++ aft
  before : ∀ p ∈ bef, 0 < c.cmp key p.1
  at_key : ∀ p ∈ mid, c.cmp key p.1 = 0
  after : ∀ p ∈ aft, c.cmp key p.1 < 0

namespace SplitAt
variable {c : Comparison K} {key : K} {bef mid aft : List (K × V)} {m m' : SortedMap c V}

theorem filter_eq (h : SplitAt c key m.entries bef mid aft) (P : ℤ → Bool) (hb hm ha : Bool)
    (h1 : ∀ z > 0, P z = hb) (h2 : P 0 = hm) (h3 : ∀ z < 0, P z = ha) :
    m.entries.filter (fun p => P (c.cmp key p.1)) =
      (if hb then bef else []) ++ (if hm then mid else []) ++ if ha then aft else [] := by
  have hbef : bef.filter (fun p => P (c.cmp key p.1)) = if hb then bef else [] := by
    rw [List.filter_congr fun p hp => h1 _ (h.before p hp)]
    cases hb <;> simp
  have hmid : mid.filter (fun p => P (c.cmp key p.1)) = if hm then mid else [] := by
    rw [List.filter_congr fun p hp => (congrArg P (h.at_key p hp)).trans h2]
    cases hm <;> simp
  have haft : aft.filter (fun p => P (c.cmp key p.1)) = if ha then aft else [] := by
    rw [List.filter_congr fun p hp => h3 _ (h.after p hp)]
    cases ha <;> simp
  rw [h.eq, List.filter_append, List.filter_append, hbef, hmid, haft]

theorem bindings_eq (h : SplitAt c key m.entries bef mid aft) : m.bindings key = mid := by
  have := h.filter_eq (fun z => z = 0) false true false (by simp; omega) (by simp) (by simp; omega)
  simpa [SortedMap.bindings] using this

theorem erase_entries (h : SplitAt c key m.entries bef mid aft) : (m.erase key).entries = bef ++ aft := by
  have := h.filter_eq (fun z => z ≠ 0) true false true (by simp; omega) (by simp) (by simp; omega)
  simpa [SortedMap.erase] using this

theorem insert_entries (h : SplitAt c key m.entries bef mid aft) (value : V) :
    (m.insert key value).entries = bef ++ (key, value) :: aft := by
  have h1 := h.filter_eq (fun z => 0 < z) true false false (by simp) (by simp) (by simp; omega)
  have h2 := h.filter_eq (fun z => z < 0) false false true (by simp; omega) (by simp) (by simp)
  simp only [if_true, Bool.false_eq_true, if_false, List.append_nil, List.nil_append] at h1 h2
  simp only [SortedMap.insert, h1, h2]

end SplitAt

/-- The bindings of a map can be split at every key. -/
theorem SortedMap.exists_splitAt {c : Comparison K} (m : SortedMap c V) (key : K) :
    ∃ bef mid aft, SplitAt c key m.entries bef mid aft ∧ mid.length ≤ 1 := by
  have hd := m.directed key
  generalize m.entries = ps at hd
  induction ps with
  | nil => exact ⟨[], [], [], ⟨rfl, by simp, by simp, by simp⟩, by simp⟩
  | cons p ps ih =>
    obtain ⟨hp, hps⟩ := List.pairwise_cons.1 hd
    rcases Int.lt_trichotomy (c.cmp key p.1) 0 with h | h | h
    · refine ⟨[], [], p :: ps, ⟨rfl, by simp, by simp, ?_⟩, by simp⟩
      exact List.forall_mem_cons.2 ⟨h, fun q hq => hp q hq (Int.le_of_lt h)⟩
    · exact ⟨[], [p], ps, ⟨rfl, by simp, by simpa using h, fun q hq => hp q hq (Int.le_of_eq h)⟩, by simp⟩
    · obtain ⟨bef, mid, aft, hs, hmid⟩ := ih hps
      exact ⟨p :: bef, mid, aft,
        ⟨by simp [hs.eq], List.forall_mem_cons.2 ⟨h, hs.before⟩, hs.at_key, hs.after⟩, hmid⟩

namespace SortedMap
variable {c : Comparison K} (m : SortedMap c V) (key : K) (value : V)

theorem size_insert : (m.insert key value).size = if m.contains key then m.size else m.size + 1 := by
  obtain ⟨bef, mid, aft, hs, hmid⟩ := m.exists_splitAt key
  rw [size, hs.insert_entries, contains, hs.bindings_eq, size, hs.eq]
  cases mid with
  | nil => simp; omega
  | cons p mid =>
    obtain rfl : mid = [] := by simpa using hmid
    simp

theorem size_erase : (m.erase key).size = if m.contains key then m.size - 1 else m.size := by
  obtain ⟨bef, mid, aft, hs, hmid⟩ := m.exists_splitAt key
  rw [size, hs.erase_entries, contains, hs.bindings_eq, size, hs.eq]
  cases mid with
  | nil => simp
  | cons p mid =>
    obtain rfl : mid = [] := by simpa using hmid
    simp

theorem size_pos_of_contains (h : m.contains key = true) : 0 < m.size := by
  obtain ⟨bef, mid, aft, hs, -⟩ := m.exists_splitAt key
  rw [contains, hs.bindings_eq] at h
  rw [size, hs.eq]
  cases mid with
  | nil => simp at h
  | cons p mid =>
    simp only [List.length_append, List.length_cons]
    omega

end SortedMap

end SortedMaps
