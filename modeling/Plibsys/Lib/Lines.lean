/-
  The lines of a text, and reading them through a buffer of limited size.

  A line ends with a newline character, except for the last one, which may lack it.  A line that
  does not fit the buffer is read in several pieces.
-/
import Mathlib.Data.List.Basic

namespace TextLines

variable {α : Type} (nl : α → Bool)

/-- The lines, with their newlines. -/
def lines : List α → List (List α)
  | [] => []
  | c :: text =>
    if nl c then [c] :: lines text
    else match lines text with
      | [] => [[c]]
      | l :: ls => (c :: l) :: ls

/-- Read at most `n` characters, up to the end of the line. -/
def readLine : ℕ → List α → List α × List α
  | 0, text => ([], text)
  | _ + 1, [] => ([], [])
  | n + 1, c :: text =>
    if nl c then ([c], text) else (c :: (readLine n text).1, (readLine n text).2)

/-- What is read until the end of the text, in at most so many steps. -/
def reads (n : ℕ) : ℕ → List α → List (List α)
  | 0, _ => []
  | _ + 1, [] => []
  | k + 1, text => (readLine nl n text).1 :: reads n k (readLine nl n text).2

/-- What is read until the end of the text. -/
def pieces (n : ℕ) (text : List α) : List (List α) := reads nl n text.length text

/-- The text ends at the end of a line. -/
def Closed (text : List α) : Prop := ∀ x ∈ text.getLast?, nl x

/-- A single line. -/
def IsLine (l : List α) : Prop := l ≠ [] ∧ ∀ x ∈ l.dropLast, nl x = false

instance (text : List α) : Decidable (Closed nl text) := inferInstanceAs (Decidable (∀ x ∈ text.getLast?, _))

variable {nl} {n k : ℕ} {c : α} {text rest l : List α}

/-! ## Reading -/

theorem Closed.tail (h : Closed nl (c :: text)) : Closed nl text := by
  intro x hx
  refine h x ?_
  cases text with
  | nil => cases hx
  | cons d text => exact hx

theorem Closed.of_ne_nil (h : Closed nl (c :: text)) (hc : nl c = false) : text ≠ [] := by
  rintro rfl
  rw [h c rfl] at hc
  cases hc

theorem readLine_nil : readLine nl n [] = ([], []) := by cases n <;> rfl

variable (nl) in
/-- What is read and what is left make up the text. -/
theorem readLine_append (n : ℕ) (text : List α) : (readLine nl n text).1 ++ (readLine nl n text).2 = text := by
  induction text generalizing n with
  | nil => rw [readLine_nil]; rfl
  | cons c text ih =>
    cases n with
    | zero => rfl
    | succ n =>
      rw [readLine]
      split
      · rfl
      · exact congrArg (c :: ·) (ih n)

variable (nl) in
theorem length_readLine_le (n : ℕ) (text : List α) : (readLine nl n text).1.length ≤ n := by
  induction n generalizing text with
  | zero => cases text <;> exact Nat.le_refl _
  | succ n ih =>
    cases text with
    | nil => exact Nat.zero_le _
    | cons c text =>
      rw [readLine]
      split
      · exact Nat.succ_le_succ (Nat.zero_le _)
      · exact Nat.succ_le_succ (ih text)

variable (nl n) in
/-- Something is read of a text that is not empty. -/
theorem length_readLine_lt (c : α) (text : List α) :
    (readLine nl (n + 1) (c :: text)).2.length ≤ text.length := by
  rw [readLine]
  split
  · exact Nat.le_refl _
  · have h := congrArg List.length (readLine_append nl n text)
    rw [List.length_append] at h
    exact Nat.le_of_add_left_le (Nat.le_of_eq h)

theorem closed_readLine (h : Closed nl text) : Closed nl (readLine nl n text).2 := by
  intro x hx
  refine h x ?_
  rw [← readLine_append nl n text, List.getLast?_append, Option.mem_def.1 hx]
  rfl

/-- Reading does not look past the end of the text, when that is the end of a line. -/
theorem readLine_closed (h : Closed nl text) (hne : text ≠ []) (n : ℕ) (rest : List α) :
    readLine nl n (text ++ rest) = ((readLine nl n text).1, (readLine nl n text).2 ++ rest) := by
  induction text generalizing n with
  | nil => exact absurd rfl hne
  | cons c text ih =>
    cases n with
    | zero => rfl
    | succ n =>
      rw [List.cons_append, readLine, readLine]
      split
      · rfl
      · rename_i hc
        rw [ih h.tail (h.of_ne_nil (Bool.eq_false_iff.2 hc))]

theorem reads_nil : reads nl n k [] = [] := by cases k <;> rfl

theorem reads_eq_reads {k' : ℕ} (hk : text.length ≤ k) (hk' : text.length ≤ k') :
    reads nl (n + 1) k text = reads nl (n + 1) k' text := by
  induction k generalizing k' text with
  | zero =>
    obtain rfl := List.eq_nil_of_length_eq_zero (Nat.le_zero.1 hk)
    rw [reads_nil, reads_nil]
  | succ k ih =>
    rcases text with _ | ⟨c, text⟩
    · rw [reads_nil, reads_nil]
    · cases k' with
      | zero => cases hk'
      | succ k' =>
        have hlt := length_readLine_lt nl n c text
        rw [reads, reads, ih (Nat.le_trans hlt (Nat.le_of_succ_le_succ hk))
          (Nat.le_trans hlt (Nat.le_of_succ_le_succ hk'))]
        · exact nofun
        · exact nofun

/-- Enough steps read everything. -/
theorem reads_eq (hk : text.length ≤ k) : reads nl (n + 1) k text = pieces nl (n + 1) text :=
  reads_eq_reads hk (Nat.le_refl _)

theorem pieces_nil : pieces nl n [] = [] := rfl

theorem pieces_cons (c : α) (text : List α) : pieces nl (n + 1) (c :: text) =
    (readLine nl (n + 1) (c :: text)).1 :: pieces nl (n + 1) (readLine nl (n + 1) (c :: text)).2 := by
  rw [pieces, List.length_cons, reads, reads_eq (length_readLine_lt nl n c text)]
  exact nofun

/-- The pieces fit the buffer. -/
theorem length_of_mem_pieces (h : l ∈ pieces nl n text) : l.length ≤ n := by
  rw [pieces] at h
  generalize text.length = k at h
  induction k generalizing text with
  | zero => cases h
  | succ k ih =>
    cases text with
    | nil => cases h
    | cons c text =>
      rcases List.mem_cons.1 h with rfl | h
      · exact length_readLine_le nl n _
      · exact ih h

/-- A text is read up to the end of a line before the next text. -/
theorem pieces_append (h : Closed nl text) (rest : List α) :
    pieces nl (n + 1) (text ++ rest) = pieces nl (n + 1) text ++ pieces nl (n + 1) rest := by
  induction hlen : text.length using Nat.strongRecOn generalizing text with
  | _ m ih =>
    rcases text with _ | ⟨c, text⟩
    · rfl
    · have hlt := length_readLine_lt nl n c text
      have hread := readLine_closed h (List.cons_ne_nil _ _) (n + 1) rest
      rw [List.cons_append] at hread ⊢
      rw [pieces_cons, pieces_cons, hread, List.cons_append,
        ih _ (by rw [← hlen]; exact Nat.lt_succ_of_le hlt) (closed_readLine h) rfl]

/-! ## Lines -/

theorem lines_append (h : Closed nl text) (rest : List α) :
    lines nl (text ++ rest) = lines nl text ++ lines nl rest := by
  induction text with
  | nil => rfl
  | cons c text ih =>
    rw [List.cons_append, lines, lines, ih h.tail]
    split
    · rfl
    · rename_i hc
      have hne := h.of_ne_nil (Bool.eq_false_iff.2 hc)
      have hlines : lines nl text ≠ [] := by
        rcases text with _ | ⟨d, text⟩
        · exact absurd rfl hne
        · rw [lines]
          split
          · exact List.cons_ne_nil _ _
          · split <;> exact List.cons_ne_nil _ _
      cases hl : lines nl text with
      | nil => exact absurd hl hlines
      | cons l ls => rfl

theorem lines_of_isLine (h : IsLine nl l) : lines nl l = [l] := by
  obtain ⟨hne, hl⟩ := h
  induction l with
  | nil => exact absurd rfl hne
  | cons c l ih =>
    rcases l with _ | ⟨d, l⟩
    · rw [lines]
      split <;> rfl
    · have hc : nl c = false := hl c (List.mem_cons_self ..)
      rw [lines, hc, if_neg Bool.false_ne_true,
        ih (List.cons_ne_nil _ _) fun x hx => hl x (List.mem_cons_of_mem c hx)]

variable (nl) in
/-- The first line of a text. -/
theorem exists_line (hne : text ≠ []) :
    ∃ l rest, text = l ++ rest ∧ IsLine nl l ∧ (Closed nl l ∨ rest = []) := by
  induction text with
  | nil => exact absurd rfl hne
  | cons c text ih =>
    cases hc : nl c with
    | true =>
      refine ⟨[c], text, rfl, ⟨List.cons_ne_nil _ _, nofun⟩, .inl ?_⟩
      rintro x hx
      rwa [← Option.some.inj hx]
    | false =>
      rcases text with _ | ⟨d, text⟩
      · exact ⟨[c], [], rfl, ⟨List.cons_ne_nil _ _, nofun⟩, .inr rfl⟩
      · obtain ⟨l, rest, htext, ⟨hl, hline⟩, hend⟩ := ih (List.cons_ne_nil _ _)
        refine ⟨c :: l, rest, congrArg (c :: ·) htext, ⟨List.cons_ne_nil _ _, ?_⟩, hend.imp_left ?_⟩
        · rw [List.dropLast_cons_of_ne_nil hl]
          rintro x (_ | ⟨_, hx⟩)
          · exact hc
          · exact hline x hx
        · intro h x hx
          refine h x ?_
          rwa [List.getLast?_cons_of_ne_nil hl] at hx

variable (nl) in
/-- Texts are made of lines. -/
theorem line_induction {motive : List α → Prop} (nil : motive [])
    (line : ∀ l rest, IsLine nl l → (Closed nl l ∨ rest = []) → motive rest → motive (l ++ rest)) (text : List α) :
    motive text := by
  induction hlen : text.length using Nat.strongRecOn generalizing text with
  | _ m ih =>
    rcases text with _ | ⟨c, text⟩
    · exact nil
    · obtain ⟨l, rest, htext, hl, hend⟩ := exists_line nl (List.cons_ne_nil c text)
      rw [htext] at hlen ⊢
      refine line l rest hl hend (ih _ ?_ _ rfl)
      rw [← hlen, List.length_append]
      exact Nat.lt_add_of_pos_left (List.length_pos_iff.2 hl.1)

theorem append_of_end {β : Type} {f : List α → List β} (hf : f [] = [])
    (happend : ∀ {text}, Closed nl text → ∀ rest, f (text ++ rest) = f text ++ f rest)
    (hend : Closed nl l ∨ rest = []) : f (l ++ rest) = f l ++ f rest := by
  rcases hend with hl | rfl
  · exact happend hl rest
  · rw [hf, List.append_nil, List.append_nil]

/-- Each line is read on its own. -/
theorem pieces_eq_flatMap (text : List α) :
    pieces nl (n + 1) text = (lines nl text).flatMap (pieces nl (n + 1)) := by
  induction text using line_induction nl with
  | nil => rfl
  | line l rest hl hend ih =>
    rw [append_of_end pieces_nil pieces_append hend, append_of_end (f := lines nl) rfl lines_append hend,
      lines_of_isLine hl, List.flatMap_append, List.flatMap_singleton, ih]

theorem isLine_of_mem {text : List α} (h : l ∈ lines nl text) : IsLine nl l := by
  induction text using line_induction nl with
  | nil => cases h
  | line l' rest hl hend ih =>
    rw [append_of_end (f := lines nl) rfl lines_append hend, lines_of_isLine hl] at h
    rcases List.mem_append.1 h with h | h
    · rwa [List.mem_singleton.1 h]
    · exact ih h

/-! ## Numbering what is read -/

/-- Of a line, the beginning is read. -/
theorem readLine_line (h : ∀ x ∈ l.dropLast, nl x = false) (n : ℕ) : readLine nl n l = (l.take n, l.drop n) := by
  induction l generalizing n with
  | nil => rw [readLine_nil, List.take_nil, List.drop_nil]
  | cons c l ih =>
    cases n with
    | zero => rfl
    | succ n =>
      rw [readLine, List.take_succ_cons, List.drop_succ_cons]
      rcases l with _ | ⟨d, l⟩
      · rw [readLine_nil, List.take_nil, List.drop_nil, ite_self]
      · have hc : nl c = false := h c (List.mem_cons_self ..)
        rw [hc, if_neg Bool.false_ne_true, ih fun x hx => h x (List.mem_cons_of_mem c hx)]

theorem pieces_line (h : IsLine nl l) :
    pieces nl (n + 1) l = l.take (n + 1) :: pieces nl (n + 1) (l.drop (n + 1)) := by
  rcases l with _ | ⟨c, l⟩
  · exact absurd rfl h.1
  · rw [pieces_cons, readLine_line h.2]

theorem pieces_fits (h : IsLine nl l) (hfits : l.length ≤ n + 1) : pieces nl (n + 1) l = [l] := by
  rw [pieces_line h, List.take_of_length_le hfits, List.drop_of_length_le hfits, pieces_nil]

/-- **When every line fits, the lines are read one by one.** -/
theorem pieces_eq_lines (hfits : ∀ l ∈ lines nl text, l.length ≤ n + 1) :
    pieces nl (n + 1) text = lines nl text := by
  rw [pieces_eq_flatMap, List.flatMap_congr fun l hl => pieces_fits (isLine_of_mem hl) (hfits l hl),
    List.flatMap_singleton']

end TextLines
