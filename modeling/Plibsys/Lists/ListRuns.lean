/-
  A program and its lists.

  * `ListCall`: what the program does with its lists; `listStep` makes the calls of `plist.c` for it.
  * `ListSpec`: the same for lists of values, which need memory only where a value is added.
  * `Holds`: the memory holds these lists, apart from each other, and nothing else.
-/
import Mathlib.Logic.Function.Basic
import Plibsys.Lib.Runs
import Plibsys.Lists.ListCalls

namespace Plibsys.Lists

open Looping Chains

variable {ι ω : Type}

/-! ## The calls -/

/-- The variables of the program, `ι`, with the lists they point to. -/
structure ListEnv (ι ω : Type) where
  heads : ι → ppointer
  mem : ListMem ω

inductive ListCall (ι ω : Type) where
  | append (i : ι) (d : ppointer)
  | prepend (i : ι) (d : ppointer)
  | remove (i : ι) (d : ppointer)
  | reverse (i : ι)
  | free (i : ι)
  | foreach (i : ι) (func : Option (PFunc ω)) (user_data : ppointer)
  | last (i : ι)
  | length (i : ι)

inductive ListOut where
  | void
  | last (d : Option ppointer)
  | length (n : psize)
  deriving DecidableEq, Repr

section
variable [DecidableEq ι]

/-- `list = f (list)`. -/
def ListEnv.assign (s : ListEnv ι ω) (i : ι) (f : ppointer → ListM ω ppointer) : Option (ListOut × ListEnv ι ω) :=
  ((f (s.heads i)).run s.mem).map fun r => (.void, ⟨Function.update s.heads i r.1, r.2⟩)

/-- A call that leaves the variable alone. -/
def ListEnv.ask {α : Type} (s : ListEnv ι ω) (i : ι) (f : ppointer → ListM ω α) (out : α → ListOut) :
    Option (ListOut × ListEnv ι ω) :=
  ((f (s.heads i)).run s.mem).map fun r => (out r.1, { s with mem := r.2 })

/-- A list that has been freed is forgotten; of the last node, the program reads the data. -/
def listStep (malloc : Malloc) (fuel : ℕ) : ListCall ι ω → ListEnv ι ω → Option (ListOut × ListEnv ι ω)
  | .append i d, s => s.assign i fun list => pListAppend malloc fuel list d
  | .prepend i d, s => s.assign i fun list => pListPrepend malloc list d
  | .remove i d, s => s.assign i fun list => pListRemove fuel list d
  | .reverse i, s => s.assign i fun list => pListReverse fuel list
  | .free i, s => s.assign i fun list => do pListFree fuel list; return NULL
  | .foreach i func user_data, s => s.ask i (fun list => pListForeach fuel list func user_data) fun _ => .void
  | .last i, s =>
    s.ask i (fun list => do
      let p ← pListLast fuel list
      if p = NULL then return none else return some (← data p)) .last
  | .length i, s => s.ask i (fun list => pListLength fuel list) .length

/-! ## The lists -/

/-- The values in each list, and the world. -/
structure Values (ι ω : Type) where
  lists : ι → List ppointer
  world : ω

def Values.set (a : Values ι ω) (i : ι) (values : List ppointer) : Values ι ω :=
  { a with lists := Function.update a.lists i values }

/-- A value is added, unless the allocation of its node `fails`; then the list stays as it is. -/
def ListSpec (fails : Prop) (a : Values ι ω) : ListCall ι ω → ListOut → Values ι ω → Prop
  | .append i d, o, a' => o = .void ∧ (fails ∧ a' = a ∨ ¬ fails ∧ a' = a.set i (a.lists i ++ [d]))
  | .prepend i d, o, a' => o = .void ∧ (fails ∧ a' = a ∨ ¬ fails ∧ a' = a.set i (d :: a.lists i))
  | .remove i d, o, a' => o = .void ∧ a' = a.set i ((a.lists i).erase d)
  | .reverse i, o, a' => o = .void ∧ a' = a.set i (a.lists i).reverse
  | .free i, o, a' => o = .void ∧ a' = a.set i []
  | .foreach i func user_data, o, a' => o = .void ∧
    a' = { a with world := func.elim a.world fun func =>
      (a.lists i).foldl (fun w d => func d user_data w) a.world }
  | .last i, o, a' => o = .last (a.lists i).getLast? ∧ a' = a
  | .length i, o, a' => o = .length (UInt64.ofNat (a.lists i).length) ∧ a' = a

/-- One call of the program, and of the specification: the allocation of this call is what fails. -/
def Lockstep (malloc : Malloc) (fuel : ℕ) (x : ListEnv ι ω × Values ι ω) (c : ListCall ι ω) (o : ListOut)
    (y : ListEnv ι ω × Values ι ω) : Prop :=
  listStep malloc fuel c x.1 = some (o, y.1) ∧
    ListSpec (malloc x.1.mem.mallocs x.1.mem.cells = NULL) x.2 c o y.2

/-- The memory holds the lists, each in nodes of its own, and no other node. -/
structure Holds (nodes : ι → Nodes ppointer) (s : ListEnv ι ω) (a : Values ι ω) : Prop where
  chain : ∀ i, Chain s.mem.cells (s.heads i) (nodes i) 0
  values : ∀ i, (nodes i).map Prod.snd = a.lists i
  apart : ∀ i j, i ≠ j → ∀ e ∈ addrs (nodes i), e ∉ addrs (nodes j)
  owned : ∀ e, (s.mem.cells e).isSome → ∃ i, e ∈ addrs (nodes i)
  world : s.mem.world = a.world

variable {nodes : ι → Nodes ppointer} {s : ListEnv ι ω} {a : Values ι ω} {i : ι}

theorem Values.set_self : a.set i (a.lists i) = a := by
  rw [Values.set, Function.update_eq_self]

/-- The nodes of one list have been turned into others. -/
theorem Holds.assign {values : List ppointer} (h : Holds nodes s a) (i : ι) (f : ppointer → ListM ω ppointer)
    (hf : Gives (f (s.heads i)) s.mem (nodes i) values) :
    ∃ s' l, s.assign i f = some (.void, s') ∧ Holds (Function.update nodes i l) s' (a.set i values) := by
  obtain ⟨p', m', l, hrun, hchain, hreplaces, hvalues, hworld⟩ := hf
  refine ⟨⟨Function.update s.heads i p', m'⟩, l, ?_, ?_⟩
  · rw [ListEnv.assign, hrun]
    rfl
  have hother : ∀ j, j ≠ i → Chain m'.cells (s.heads j) (nodes j) 0 ∧ ∀ e ∈ addrs (nodes j), e ∉ addrs l :=
    fun j hj => hreplaces.other (h.chain j) (h.apart j i hj)
  constructor
  · intro j
    by_cases hj : j = i
    · subst hj
      simp only [Function.update_self]
      exact hchain
    · simp only [Function.update_of_ne hj]
      exact (hother j hj).1
  · intro j
    by_cases hj : j = i
    · subst hj
      simp only [Values.set, Function.update_self]
      exact hvalues
    · simp only [Values.set, Function.update_of_ne hj]
      exact h.values j
  · intro j k hjk e he hk
    by_cases hj : j = i
    · subst hj
      rw [Function.update_self] at he
      rw [Function.update_of_ne hjk.symm] at hk
      exact (hother k hjk.symm).2 e hk he
    · rw [Function.update_of_ne hj] at he
      by_cases hki : k = i
      · subst hki
        rw [Function.update_self] at hk
        exact (hother j hj).2 e he hk
      · rw [Function.update_of_ne hki] at hk
        exact h.apart j k hjk e he hk
  · intro e he
    by_cases hin : e ∈ addrs l
    · exact ⟨i, by rwa [Function.update_self]⟩
    by_cases hwas : e ∈ addrs (nodes i)
    · rw [hreplaces.freed e hwas hin] at he
      cases he
    · rw [hreplaces.frame e hwas hin] at he
      obtain ⟨j, hj⟩ := h.owned e he
      have hne : j ≠ i := by
        rintro rfl
        exact hwas hj
      exact ⟨j, by rwa [Function.update_of_ne hne]⟩
  · exact hworld.trans h.world

omit [DecidableEq ι] in
/-- A call that reads the list. -/
theorem Holds.ask {α : Type} {r : α} {w : ω} (h : Holds nodes s a) (i : ι) (f : ppointer → ListM ω α)
    (out : α → ListOut) (hf : (f (s.heads i)).run s.mem = some (r, { s.mem with world := w })) :
    ∃ s', s.ask i f out = some (out r, s') ∧ Holds nodes s' { a with world := w } := by
  refine ⟨{ s with mem := { s.mem with world := w } }, ?_, ⟨h.chain, h.values, h.apart, h.owned, rfl⟩⟩
  rw [ListEnv.ask, hf]
  rfl

/-- The data of the last node. -/
theorem run_last_data {m : ListMem ω} {p : ppointer} {l : Nodes ppointer} {fuel : ℕ} (h : Chain m.cells p l 0)
    (hfuel : l.length ≤ fuel) :
    (do let p ← pListLast fuel p; if p = NULL then return none else return some (← data p) : ListM ω _).run m =
      some ((l.map Prod.snd).getLast?, m) := by
  rw [run_bind_of (run_pListLast h hfuel)]
  rcases List.eq_nil_or_concat l with rfl | ⟨l, ⟨e, x⟩, rfl⟩
  · rfl
  · rw [List.concat_eq_append] at h ⊢
    obtain ⟨r, -, rfl, he, n, hcell, -⟩ := chain_append.1 h
    rw [addrs_append, List.getLast?_append, List.map_append, List.getLast?_append]
    change (if r = NULL then pure none else data r >>= fun d => pure (some d) : ListM ω _).run m = _
    rw [if_neg he, run_bind_of (run_data he hcell)]
    rfl

variable {malloc : Malloc} {fuel : ℕ}

/-- **One call.** -/
theorem listStep_spec (hmalloc : malloc.Sound) (h : Holds nodes s a) (hfuel : ∀ i, (nodes i).length < fuel)
    (c : ListCall ι ω) : ∃ o s' a' nodes', listStep malloc fuel c s = some (o, s') ∧
      ListSpec (malloc s.mem.mallocs s.mem.cells = NULL) a c o a' ∧ Holds nodes' s' a' := by
  have hchain := h.chain
  have hvalues := h.values
  cases c with
  | append i d =>
    obtain ⟨s', l, hrun, hholds⟩ := h.assign i (fun list => pListAppend malloc fuel list d)
      (gives_pListAppend hmalloc (hchain i) (Nat.le_of_lt (hfuel i)))
    refine ⟨_, s', _, _, hrun, ⟨rfl, ?_⟩, hholds⟩
    by_cases hnull : malloc s.mem.mallocs s.mem.cells = NULL
    · rw [if_pos hnull, hvalues i]
      exact .inl ⟨hnull, Values.set_self⟩
    · rw [if_neg hnull, hvalues i]
      exact .inr ⟨hnull, rfl⟩
  | prepend i d =>
    obtain ⟨s', l, hrun, hholds⟩ := h.assign i (fun list => pListPrepend malloc list d)
      (gives_pListPrepend hmalloc (hchain i))
    refine ⟨_, s', _, _, hrun, ⟨rfl, ?_⟩, hholds⟩
    by_cases hnull : malloc s.mem.mallocs s.mem.cells = NULL
    · rw [if_pos hnull, hvalues i]
      exact .inl ⟨hnull, Values.set_self⟩
    · rw [if_neg hnull, hvalues i]
      exact .inr ⟨hnull, rfl⟩
  | remove i d =>
    obtain ⟨s', l, hrun, hholds⟩ := h.assign i (fun list => pListRemove fuel list d)
      (gives_pListRemove (hchain i) (hfuel i))
    refine ⟨_, s', _, _, hrun, ⟨rfl, ?_⟩, hholds⟩
    rw [hvalues i]
  | reverse i =>
    obtain ⟨s', l, hrun, hholds⟩ :=
      h.assign i (pListReverse fuel) (gives_pListReverse (hchain i) (Nat.le_of_lt (hfuel i)))
    refine ⟨_, s', _, _, hrun, ⟨rfl, ?_⟩, hholds⟩
    rw [hvalues i]
  | free i =>
    obtain ⟨s', l, hrun, hholds⟩ := h.assign i (fun list => do pListFree fuel list; return NULL)
      (gives_pListFree (hchain i) (hfuel i))
    exact ⟨_, s', _, _, hrun, ⟨rfl, rfl⟩, hholds⟩
  | foreach i func user_data =>
    cases func with
    | none =>
      obtain ⟨s', hrun, hholds⟩ := h.ask (w := a.world) i (fun list => pListForeach fuel list none user_data)
        (fun _ => .void) (by rw [← h.world]; rfl)
      exact ⟨_, s', _, _, hrun, ⟨rfl, rfl⟩, hholds⟩
    | some func =>
      obtain ⟨s', hrun, hholds⟩ :=
        h.ask i (fun list => pListForeach fuel list (some func) user_data) (fun _ => .void)
        (run_pListForeach func user_data (hchain i) (hfuel i))
      refine ⟨_, s', _, _, hrun, ⟨rfl, ?_⟩, hholds⟩
      rw [hvalues i, h.world]
      rfl
  | last i =>
    obtain ⟨s', hrun, hholds⟩ := h.ask (w := s.mem.world) i
      (fun list => do let p ← pListLast fuel list; if p = NULL then return none else return some (← data p)) .last
      (run_last_data (hchain i) (Nat.le_of_lt (hfuel i)))
    rw [h.world] at hholds
    refine ⟨_, s', a, _, hrun, ⟨?_, rfl⟩, hholds⟩
    rw [hvalues i]
  | length i =>
    obtain ⟨s', hrun, hholds⟩ :=
      h.ask (w := s.mem.world) i _ .length (run_pListLength (hchain i) (Nat.le_of_lt (hfuel i)))
    rw [h.world] at hholds
    refine ⟨_, s', a, _, hrun, ⟨?_, rfl⟩, hholds⟩
    rw [← hvalues i, List.length_map]

/-- A call makes a list longer by one at most. -/
theorem ListSpec.length_le {fails : Prop} {c : ListCall ι ω} {o : ListOut} {a' : Values ι ω}
    (h : ListSpec fails a c o a') (j : ι) : (a'.lists j).length ≤ (a.lists j).length + 1 := by
  have hset : ∀ (i : ι) (values : List ppointer), values.length ≤ (a.lists i).length + 1 →
      ((a.set i values).lists j).length ≤ (a.lists j).length + 1 := by
    intro i values hle
    by_cases hj : j = i
    · subst hj
      simp only [Values.set, Function.update_self]
      exact hle
    · simp only [Values.set, Function.update_of_ne hj]
      exact Nat.le_succ _
  cases c with
  | append i d =>
    rcases h with ⟨-, ⟨-, rfl⟩ | ⟨-, rfl⟩⟩
    · exact Nat.le_succ _
    · exact hset i _ (Nat.le_of_eq List.length_append)
  | prepend i d =>
    rcases h with ⟨-, ⟨-, rfl⟩ | ⟨-, rfl⟩⟩
    · exact Nat.le_succ _
    · exact hset i _ (Nat.le_of_eq List.length_cons)
  | remove i d =>
    obtain ⟨-, rfl⟩ := h
    exact hset i _ (Nat.le_trans List.length_erase_le (Nat.le_succ _))
  | reverse i =>
    obtain ⟨-, rfl⟩ := h
    exact hset i _ (by rw [List.length_reverse]; exact Nat.le_succ _)
  | free i =>
    obtain ⟨-, rfl⟩ := h
    exact hset i _ (Nat.zero_le _)
  | foreach i func user_data =>
    obtain ⟨-, rfl⟩ := h
    exact Nat.le_succ _
  | last i =>
    obtain ⟨-, rfl⟩ := h
    exact Nat.le_succ _
  | length i =>
    obtain ⟨-, rfl⟩ := h
    exact Nat.le_succ _

/-! ## Runs -/

/-- A program that has no list yet. -/
def ListEnv.init (world : ω) : ListEnv ι ω := ⟨fun _ => NULL, fun _ => none, 0, world⟩

/-- **A program sees its lists as lists of values.**  Whatever it does with them, no call dereferences or
    frees what is not a node of a list, no loop runs on, and call by call the results are those of the
    specification, where a value is left out exactly if the allocator fails in the call; at any time, each
    node in memory belongs to one list. -/
theorem pList_refines {malloc : Malloc} (hmalloc : malloc.Sound) (world : ω) (calls : List (ListCall ι ω))
    {fuel : ℕ}
    (hfuel : calls.length < fuel) : ∃ outs s a nodes,
      Runs.run (listStep malloc fuel) calls (ListEnv.init world) = some (outs, s) ∧
      Runs.SpecRun (Lockstep malloc fuel) (ListEnv.init world, ⟨fun _ => [], world⟩) calls outs (s, a) ∧
      Holds nodes s a := by
  let R : ℕ → ListEnv ι ω → ListEnv ι ω × Values ι ω → Prop := fun n s x =>
    x.1 = s ∧ (∃ nodes, Holds nodes s x.2) ∧ ∀ i, (x.2.lists i).length + n < fuel
  have hinit : R calls.length (ListEnv.init world) (ListEnv.init world, ⟨fun _ => [], world⟩) := by
    refine ⟨rfl, ⟨fun _ => [], fun i => rfl, fun i => rfl, fun i j _ e he => ?_, fun e he => ?_, rfl⟩, fun i => ?_⟩
    · cases he
    · cases he
    · rw [List.length_nil, Nat.zero_add]
      exact hfuel
  have hstep : ∀ n s x c, R (n + 1) s x → True → ∃ o s' x', listStep malloc fuel c s = some (o, s') ∧
      Lockstep malloc fuel x c o x' ∧ R n s' x' := by
    rintro n _ ⟨s, a⟩ c ⟨rfl, ⟨nodes, hholds⟩, hle⟩ -
    have hlengths : ∀ i, (a.lists i).length + (n + 1) < fuel := hle
    obtain ⟨o, s', a', nodes', hrun, hspec, hholds'⟩ := listStep_spec hmalloc hholds (fun i => by
      have hi := hlengths i
      rw [← hholds.values i, List.length_map] at hi
      exact Nat.lt_of_le_of_lt (Nat.le_add_right _ _) hi) c
    have hlengths' : ∀ i, (a'.lists i).length + n < fuel := fun i => by
      have hi := hlengths i
      have hi' : (a'.lists i).length ≤ (a.lists i).length + 1 := hspec.length_le i
      omega
    exact ⟨o, s', (s', a'), hrun, ⟨hrun, hspec⟩, rfl, ⟨nodes', hholds'⟩, hlengths'⟩
  obtain ⟨outs, s, ⟨s', a⟩, hrun, hspec, hsame, ⟨nodes, hholds⟩, -⟩ :=
    Runs.simulates (R := R) (.of_forall (fun _ _ => trivial) calls _) hinit hstep
  have heq : s' = s := hsame
  subst heq
  exact ⟨outs, s', a, nodes, hrun, hspec, hholds⟩

/-- An allocator with addresses to spare. -/
def bumpMalloc : Malloc := fun k cells => if cells (k + 1) = none then k + 1 else NULL

theorem bumpMalloc_sound : bumpMalloc.Sound := by
  intro k cells
  by_cases h : cells (k + 1) = none
  · rw [bumpMalloc, if_pos h]
    exact .inr h
  · rw [bumpMalloc, if_neg h]
    exact .inl rfl

theorem pList_refines_two : ∃ outs s a nodes,
    Runs.run (listStep bumpMalloc 7) [.append true 7, .append false 9, .prepend true 8, .reverse true,
      .remove true 7,
      .free false] (ListEnv.init 0) = some (outs, s) ∧
    Runs.SpecRun (Lockstep bumpMalloc 7) (ListEnv.init 0, ⟨fun _ => [], 0⟩) [.append true 7, .append false 9,
      .prepend true 8, .reverse true, .remove true 7, .free false] outs (s, a) ∧
    Holds (nodes : Bool → Nodes ppointer) s (a : Values Bool ℕ) :=
  pList_refines bumpMalloc_sound 0 _ (by decide)

end

end Plibsys.Lists
