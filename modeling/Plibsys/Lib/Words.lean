/-
  The words of a text: its maximal runs of characters that are not blanks.
-/
import Plibsys.Lib.Scan

namespace Words

open Scanning

variable {α : Type} (blank : α → Bool)

/-- The words of a text, in order. -/
inductive MaximalRuns : List α → List (List α) → Prop where
  | blanks {s} (hs : ∀ c ∈ s, blank c) : MaximalRuns s []
  | word {s w rest ws} (hs : ∀ c ∈ s, blank c) (hne : w ≠ []) (hw : ∀ c ∈ w, blank c = false)
      (hrest : ∀ c ∈ rest.head?, blank c) (h : MaximalRuns rest ws) : MaximalRuns (s ++ (w ++ rest)) (w :: ws)

variable {blank} {s w text : List α} {ws ws' : List (List α)} {c : α}

namespace MaximalRuns

/-- Blanks in front of a text. -/
theorem append_blanks (hs : ∀ c ∈ s, blank c) (h : MaximalRuns blank text ws) :
    MaximalRuns blank (s ++ text) ws := by
  cases h with
  | blanks ht => exact .blanks fun c hc => (List.mem_append.1 hc).elim (hs c) (ht c)
  | @word s' w rest ws hs' hne hw hrest h =>
    rw [← List.append_assoc]
    exact .word (fun c hc => (List.mem_append.1 hc).elim (hs c) (hs' c)) hne hw hrest h

theorem cons_blank (hc : blank c) (h : MaximalRuns blank text ws) : MaximalRuns blank (c :: text) ws :=
  append_blanks (s := [c]) (fun _ hx => List.mem_singleton.1 hx ▸ hc) h

/-- A word in front of a text that starts with a blank. -/
theorem append_word (hne : w ≠ []) (hw : ∀ c ∈ w, blank c = false) (hrest : ∀ c ∈ text.head?, blank c)
    (h : MaximalRuns blank text ws) : MaximalRuns blank (w ++ text) (w :: ws) :=
  word (s := []) nofun hne hw hrest h

/-- **A text has one list of words.** -/
theorem unique (h : MaximalRuns blank text ws) (h' : MaximalRuns blank text ws') : ws = ws' := by
  induction h generalizing ws' with
  | @blanks s hs =>
    cases h' with
    | blanks => rfl
    | @word s' w rest ws hs' hne hw hrest h =>
      obtain ⟨c, w, rfl⟩ := List.exists_cons_of_ne_nil hne
      have hc := hs c (List.mem_append_right _ (List.mem_cons_self ..))
      rw [hw c (List.mem_cons_self ..)] at hc
      cases hc
  | @word s w rest ws hs hne hw hrest h ih =>
    generalize htext : s ++ (w ++ rest) = text at h'
    obtain ⟨c, w₀, rfl⟩ := List.exists_cons_of_ne_nil hne
    cases h' with
    | blanks hs' =>
      have hc := hs' c (htext ▸ List.mem_append_right _ (List.mem_cons_self ..))
      rw [hw c (List.mem_cons_self ..)] at hc
      cases hc
    | @word s' w' rest' ws' hs' hne' hw' hrest' h' =>
      obtain ⟨c', w₀', rfl⟩ := List.exists_cons_of_ne_nil hne'
      have hhead : ∀ {d : α} {v t : List α}, (∀ x ∈ d :: v, blank x = false) →
          ∀ x ∈ (d :: v ++ t).head?, blank x = false :=
        fun hv x hx => hv x (Option.some.inj hx ▸ List.mem_cons_self ..)
      have hrun := congrArg (List.dropWhile blank) htext
      rw [dropWhile_append_stop hs (hhead hw), dropWhile_append_stop hs' (hhead hw')] at hrun
      have hnot : ∀ {v : List α}, (∀ x ∈ v, blank x = false) → ∀ x ∈ v, (!blank x) = true :=
        fun hv x hx => by rw [hv x hx]; rfl
      have hstop : ∀ {t : List α}, (∀ x ∈ t.head?, blank x) → ∀ x ∈ t.head?, (!blank x) = false :=
        fun ht x hx => by rw [ht x hx]; rfl
      have hword := congrArg (List.takeWhile fun x => !blank x) hrun
      have htail := congrArg (List.dropWhile fun x => !blank x) hrun
      rw [takeWhile_append_stop (hnot hw) (hstop hrest), takeWhile_append_stop (hnot hw') (hstop hrest')] at hword
      rw [dropWhile_append_stop (hnot hw) (hstop hrest), dropWhile_append_stop (hnot hw') (hstop hrest')] at htail
      rw [hword, ih (htail ▸ h')]

/-- Words with a blank between them. -/
theorem intercalate (hc : blank c) (h : ∀ w ∈ ws, w ≠ [] ∧ ∀ x ∈ w, blank x = false) :
    MaximalRuns blank ([c].intercalate ws) ws := by
  induction ws with
  | nil => exact .blanks nofun
  | cons w ws ih =>
    obtain ⟨hne, hw⟩ := h w (List.mem_cons_self ..)
    have hws := ih fun v hv => h v (List.mem_cons_of_mem w hv)
    cases ws with
    | nil =>
      rw [List.intercalate_singleton]
      have hone : MaximalRuns blank (w ++ []) [w] := append_word hne hw nofun (.blanks nofun)
      rwa [List.append_nil] at hone
    | cons v ws =>
      rw [List.intercalate_cons_cons, List.append_assoc]
      refine append_word hne hw ?_ (cons_blank hc hws)
      intro x hx
      rwa [← Option.some.inj hx]

end MaximalRuns

end Words
