/-
  Scanning text after a format, and trimming it.

  A format is a list of directives, as that of the `scanf` functions of C: blanks, a character,
  and a non-empty run of characters of a set, which is returned.
-/
import Mathlib.Data.List.DropRight

namespace Scanning

variable {α : Type} {p : α → Bool} {l m a b : List α} {x : α}

/-! ## Runs of characters -/

theorem takeWhile_append_stop (ha : ∀ x ∈ a, p x) (hb : ∀ x ∈ b.head?, p x = false) :
    (a ++ b).takeWhile p = a := by
  rw [List.takeWhile_append_of_pos ha]
  cases b with
  | nil => rw [List.takeWhile_nil, List.append_nil]
  | cons x b =>
    have hx : p x = false := hb x rfl
    rw [List.takeWhile_cons_of_neg (by rw [hx]; exact Bool.false_ne_true), List.append_nil]

theorem dropWhile_append_stop (ha : ∀ x ∈ a, p x) (hb : ∀ x ∈ b.head?, p x = false) :
    (a ++ b).dropWhile p = b := by
  rw [List.dropWhile_append_of_pos ha]
  cases b with
  | nil => rfl
  | cons x b =>
    have hx : p x = false := hb x rfl
    rw [List.dropWhile_cons_of_neg (by rw [hx]; exact Bool.false_ne_true)]

theorem takeWhile_append_of_stop (hb : ∀ x ∈ b.head?, p x = false) : (a ++ b).takeWhile p = a.takeWhile p := by
  induction a with
  | nil => exact takeWhile_append_stop (a := []) nofun hb
  | cons x a ih =>
    rw [List.cons_append, List.takeWhile_cons, List.takeWhile_cons, ih]

/-- A property of all characters, checked one by one. -/
theorem forall_mem_of_all {P : α → Prop} [DecidablePred P] (h : l.all fun x => P x) : ∀ x ∈ l, P x :=
  fun x hx => of_decide_eq_true (List.all_eq_true.1 h x hx)

/-- What is left after a run does not go on with it. -/
theorem head?_dropWhile (p : α → Bool) (l : List α) : ∀ x ∈ (l.dropWhile p).head?, p x = false := by
  intro x hx
  have hnot := List.head?_dropWhile_not p l
  rw [Option.mem_def.1 hx] at hnot
  exact hnot

/-! ## Trimming -/

/-- Remove the characters of `p` from both ends. -/
def trim (p : α → Bool) (l : List α) : List α := (l.dropWhile p).rdropWhile p

/-- There is nothing to remove. -/
def Trimmed (p : α → Bool) (m : List α) : Prop :=
  (∀ x ∈ m.head?, p x = false) ∧ ∀ x ∈ m.getLast?, p x = false

instance (p : α → Bool) (m : List α) : Decidable (Trimmed p m) := inferInstanceAs (Decidable (_ ∧ _))

theorem rdropWhile_append_stop (hm : ∀ x ∈ m.getLast?, p x = false) (hb : ∀ x ∈ b, p x) :
    (m ++ b).rdropWhile p = m := by
  have hstop : ∀ x ∈ m.reverse.head?, p x = false := by
    rw [List.head?_reverse]
    exact hm
  rw [List.rdropWhile, List.reverse_append, dropWhile_append_stop (fun x hx => hb x (List.mem_reverse.1 hx)) hstop,
    List.reverse_reverse]

theorem trim_append (ha : ∀ x ∈ a, p x) (hb : ∀ x ∈ b, p x) (hm : Trimmed p m) : trim p (a ++ (m ++ b)) = m := by
  rw [trim, List.dropWhile_append_of_pos ha]
  cases m with
  | nil =>
    rw [List.nil_append, List.dropWhile_eq_nil_iff.2 hb]
    rfl
  | cons y m =>
    have hy : p y = false := hm.1 y rfl
    rw [List.cons_append, List.dropWhile_cons_of_neg (by rw [hy]; exact Bool.false_ne_true), ← List.cons_append]
    exact rdropWhile_append_stop hm.2 hb

variable (p l) in
/-- What is removed, and what is left. -/
theorem exists_trim : ∃ a b, l = a ++ (trim p l ++ b) ∧ (∀ x ∈ a, p x) ∧ (∀ x ∈ b, p x) ∧
    Trimmed p (trim p l) := by
  have hsplit : l.dropWhile p = trim p l ++ (l.dropWhile p).rtakeWhile p := List.rdropWhile_append_rtakeWhile.symm
  refine ⟨l.takeWhile p, (l.dropWhile p).rtakeWhile p, ?_, fun _ => List.mem_takeWhile_imp,
    fun _ => List.mem_rtakeWhile_imp, ?_, ?_⟩
  · rw [← hsplit, List.takeWhile_append_dropWhile]
  · intro x hx
    refine head?_dropWhile p l x ?_
    rw [hsplit, Option.mem_def, List.head?_append, Option.mem_def.1 hx]
    rfl
  · intro x hx
    obtain ⟨hne, rfl⟩ := List.mem_getLast?_eq_getLast hx
    exact Bool.eq_false_iff.2 (List.rdropWhile_last_not p _ hne)

theorem trim_of_trimmed (hm : Trimmed p m) : trim p m = m := by
  simpa using trim_append (a := []) (b := []) nofun nofun hm

theorem trim_isInfix (p : α → Bool) (l : List α) : trim p l <:+: l := by
  obtain ⟨a, b, hl, -⟩ := exists_trim p l
  exact ⟨a, b, by rw [List.append_assoc, ← hl]⟩

theorem length_trim_le (p : α → Bool) (l : List α) : (trim p l).length ≤ l.length := (trim_isInfix p l).length_le

theorem head?_trim (p : α → Bool) (l : List α) : (trim p l).head? = (l.dropWhile p).head? := by
  have hsplit : (l.dropWhile p).rdropWhile p ++ (l.dropWhile p).rtakeWhile p = l.dropWhile p :=
    List.rdropWhile_append_rtakeWhile
  rw [trim]
  cases hleft : (l.dropWhile p).rdropWhile p with
  | cons x m => rw [← hsplit, hleft, List.cons_append, List.head?_cons, List.head?_cons]
  | nil =>
    rw [hleft, List.nil_append] at hsplit
    have hstop := head?_dropWhile p l
    cases hrest : l.dropWhile p with
    | nil => rfl
    | cons x m =>
      rw [hrest] at hsplit hstop
      have hx : p x = true := List.mem_rtakeWhile_imp (hsplit ▸ List.mem_cons_self ..)
      rw [hstop x rfl] at hx
      cases hx

/-! ## Formats -/

inductive Directive (α : Type) where
  /-- any number of blanks -/
  | space
  | char (c : α)
  /-- a non-empty run of characters of the set, which is returned -/
  | run (p : α → Bool)

variable [DecidableEq α] (space : α → Bool)

/-- The runs that are read before the text does not fit the format. -/
def scan : List (Directive α) → List α → List (List α)
  | [], _ => []
  | .space :: fmt, text => scan fmt (text.dropWhile space)
  | .char _ :: _, [] => []
  | .char c :: fmt, x :: text => if x = c then scan fmt text else []
  | .run p :: fmt, text =>
    match text.takeWhile p with
    | [] => []
    | x :: xs => (x :: xs) :: scan fmt (text.dropWhile p)

variable {space} {fmt : List (Directive α)} {text : List α} {c : α}

theorem scan_char (c : α) (fmt : List (Directive α)) (text : List α) :
    scan space (.char c :: fmt) (c :: text) = scan space fmt text := by
  rw [scan, if_pos rfl]

theorem scan_char_of_ne (hx : x ≠ c) : scan space (.char c :: fmt) (x :: text) = [] := by
  rw [scan, if_neg hx]

theorem scan_run (ha : ∀ x ∈ a, p x) (hne : a ≠ []) (hb : ∀ x ∈ b.head?, p x = false) :
    scan space (.run p :: fmt) (a ++ b) = a :: scan space fmt b := by
  rw [scan, takeWhile_append_stop ha hb, dropWhile_append_stop ha hb]
  cases a with
  | nil => exact absurd rfl hne
  | cons x a => rfl

theorem scan_run_nil (htext : ∀ x ∈ text.head?, p x = false) : scan space (.run p :: fmt) text = [] := by
  rw [scan, ← List.nil_append text, takeWhile_append_stop (a := []) nofun htext]

/-- What is read is part of the text. -/
theorem isInfix_of_mem_scan {r : List α} (h : r ∈ scan space fmt text) : r <:+: text := by
  induction fmt generalizing text with
  | nil => cases h
  | cons d fmt ih =>
    cases d with
    | space =>
      exact (ih h).trans (List.dropWhile_suffix _).isInfix
    | char c =>
      cases text with
      | nil => cases h
      | cons x text =>
        rw [scan] at h
        split at h
        · exact (ih h).trans (List.suffix_cons x text).isInfix
        · cases h
    | run p =>
      rw [scan] at h
      split at h
      · cases h
      · rename_i x xs hrun
        rcases List.mem_cons.1 h with rfl | h
        · rw [← hrun]
          exact (List.takeWhile_prefix _).isInfix
        · exact (ih h).trans (List.dropWhile_suffix _).isInfix

def Directive.isRun : Directive α → Bool
  | .space | .char _ => false
  | .run _ => true

/-- No more is read than the format has runs. -/
theorem length_scan (space : α → Bool) (fmt : List (Directive α)) (text : List α) :
    (scan space fmt text).length ≤ fmt.countP Directive.isRun := by
  induction fmt generalizing text with
  | nil => exact Nat.le_refl _
  | cons d fmt ih =>
    cases d with
    | space => exact ih _
    | char c =>
      cases text with
      | nil => exact Nat.zero_le _
      | cons x text =>
        rw [scan]
        split
        · exact ih _
        · exact Nat.zero_le _
    | run p =>
      rw [scan]
      split
      · exact Nat.zero_le _
      · rw [List.length_cons, List.countP_cons_of_pos rfl]
        exact Nat.succ_le_succ (ih _)

theorem length_scan_le {r : List α} (h : r ∈ scan space fmt text) : r.length ≤ text.length :=
  (isInfix_of_mem_scan h).length_le

end Scanning
