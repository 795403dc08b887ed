/-
  Texts made of sections: headers, each followed by the items of its section.

  The items before the first header belong to no section.
-/
import Mathlib.Data.List.Basic

namespace Sectioned

inductive Entry (N P : Type) where
  | header (name : N)
  | item (p : P)
  deriving DecidableEq, Repr

structure Section (N P : Type) where
  name : N
  items : List P
  deriving DecidableEq, Repr

variable {N P N' P' : Type}

/-- The items before the first header, and the sections, in order. -/
def split : List (Entry N P) → List P × List (Section N P)
  | [] => ([], [])
  | .header name :: es => ([], ⟨name, (split es).1⟩ :: (split es).2)
  | .item p :: es => (p :: (split es).1, (split es).2)

/-- The items before the first header. -/
def lead (es : List (Entry N P)) : List P := (split es).1

/-- The sections, in order. -/
def sections (es : List (Entry N P)) : List (Section N P) := (split es).2

/-- A section with items. -/
def Section.used (s : Section N P) : Bool := !s.items.isEmpty

/-- More items for a section. -/
def Section.extend (s : Section N P) (ps : List P) : Section N P := ⟨s.name, s.items ++ ps⟩

variable {es es' : List (Entry N P)} {name : N} {p : P} {ps : List P} {s : Section N P} {ss : List (Section N P)}

@[simp] theorem lead_nil : lead ([] : List (Entry N P)) = [] := rfl

@[simp] theorem lead_header : lead (.header name :: es) = [] := rfl

@[simp] theorem lead_item : lead (.item p :: es) = p :: lead es := rfl

@[simp] theorem sections_nil : sections ([] : List (Entry N P)) = [] := rfl

@[simp] theorem sections_header : sections (.header name :: es) = ⟨name, lead es⟩ :: sections es := rfl

@[simp] theorem sections_item : sections (.item p :: es) = sections es := rfl

theorem Section.used_iff : s.used ↔ s.items ≠ [] := by
  rw [Section.used, Bool.not_eq_true', ← Bool.not_eq_true, List.isEmpty_iff]

/-- Sections consist of the items of the text. -/
theorem mem_of_mem_split (es : List (Entry N P)) :
    (p ∈ lead es → .item p ∈ es) ∧ ∀ s ∈ sections es, p ∈ s.items → .item p ∈ es := by
  induction es with
  | nil => exact ⟨nofun, nofun⟩
  | cons e es ih =>
    obtain ⟨hlead, hsections⟩ := ih
    cases e with
    | header name =>
      refine ⟨nofun, fun s hs hp => List.mem_cons_of_mem _ ?_⟩
      rcases List.mem_cons.1 hs with rfl | hs
      · exact hlead hp
      · exact hsections s hs hp
    | item q =>
      refine ⟨fun hp => ?_, fun s hs hp => List.mem_cons_of_mem _ (hsections s hs hp)⟩
      rcases List.mem_cons.1 hp with rfl | hp
      · exact List.mem_cons_self ..
      · exact List.mem_cons_of_mem _ (hlead hp)

/-! ## Appending texts -/

/-- Without a header, everything is before the first one of the rest. -/
theorem split_append_of_nil (h : sections es = []) : lead (es ++ es') = lead es ++ lead es' ∧
    sections (es ++ es') = sections es' := by
  induction es with
  | nil => exact ⟨rfl, rfl⟩
  | cons e es ih =>
    cases e with
    | header name => cases h
    | item p =>
      obtain ⟨hlead, hsections⟩ := ih h
      exact ⟨congrArg (p :: ·) hlead, hsections⟩

/-- The first items of the rest belong to the last section. -/
theorem split_append_of_concat (h : sections es = ss ++ [s]) : lead (es ++ es') = lead es ∧
    sections (es ++ es') = ss ++ s.extend (lead es') :: sections es' := by
  induction es generalizing ss with
  | nil => exact absurd h.symm (List.append_ne_nil_of_right_ne_nil _ (List.cons_ne_nil _ _))
  | cons e es ih =>
    cases e with
    | item p =>
      obtain ⟨hlead, hsections⟩ := ih h
      exact ⟨congrArg (p :: ·) hlead, hsections⟩
    | header name =>
      rw [sections_header] at h
      rw [List.cons_append, sections_header]
      rcases ss with _ | ⟨s', ss⟩
      · obtain ⟨hs, hnil⟩ := List.cons.inj h
        obtain ⟨hlead, hsections⟩ := split_append_of_nil hnil
        rw [← hs, hlead, hsections]
        exact ⟨rfl, rfl⟩
      · obtain ⟨hs, htail⟩ := List.cons.inj h
        obtain ⟨hlead, hsections⟩ := ih htail
        rw [hlead, hsections, hs]
        exact ⟨rfl, rfl⟩

/-! ## Renaming -/

def Entry.map (f : N → N') (g : P → P') : Entry N P → Entry N' P'
  | .header name => .header (f name)
  | .item p => .item (g p)

/-! ## Entries that are kept -/

def startsWithItem : List (Entry N P) → Bool
  | .item _ :: _ => true
  | _ => false

/-- The entries of the sections with items: the headers that an item follows, and the items behind a header. -/
def kept : Bool → List (Entry N P) → List (Entry N P)
  | _, [] => []
  | _, .header name :: es => if startsWithItem es then .header name :: kept true es else kept true es
  | inSection, .item p :: es => if inSection then .item p :: kept true es else kept false es

/-! ## Entries that are kept, part by part -/

variable {next inSection : Bool}

end Sectioned
