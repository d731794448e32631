import Mathlib.Data.List.Basic

/-!
# Columns and lines

A text with padded columns and with lines that end in a separator, over any alphabet. Both can be
read back where what they hold keeps clear of the padding and of the separator.

* `rightpad_append_inj`, `leftpad_append_inj`: a padded column with more behind it.
* `lines`: some lines, each with its end. `splitOn_lines` takes them apart, and `lines_cons_inj`
  reads the last lines of a text whatever stands in front of them.
-/

namespace Text

variable {α : Type} {a : α} {s t x y : List α}

/-! ## Columns -/

theorem replicate_append_inj {j k : Nat} (hs : s.head? ≠ some a) (ht : t.head? ≠ some a)
    (h : List.replicate j a ++ s = List.replicate k a ++ t) : s = t := by
  induction j generalizing k with
  | zero =>
    cases k with
    | zero => exact h
    | succ k =>
      have hhead : s.head? = some a := by
        rw [show s = a :: (List.replicate k a ++ t) from h]
        rfl
      exact absurd hhead hs
  | succ j ih =>
    cases k with
    | zero =>
      have hhead : t.head? = some a := by
        rw [show t = a :: (List.replicate j a ++ s) from h.symm]
        rfl
      exact absurd hhead ht
    | succ k => exact ih (List.cons.inj h).2

theorem append_replicate_inj {j k : Nat} (hs : s.getLast? ≠ some a) (ht : t.getLast? ≠ some a)
    (h : s ++ List.replicate j a = t ++ List.replicate k a) : s = t := by
  have hreverse := congrArg List.reverse h
  rw [List.reverse_append, List.reverse_append, List.reverse_replicate,
    List.reverse_replicate] at hreverse
  apply List.reverse_injective
  apply replicate_append_inj (a := a) _ _ hreverse
  · rw [List.head?_reverse]
    exact hs
  · rw [List.head?_reverse]
    exact ht

/-- What stands in front of the first `a`. -/
theorem append_cons_inj (hs : a ∉ s) (ht : a ∉ t) (h : s ++ a :: x = t ++ a :: y) :
    s = t ∧ x = y := by
  induction s generalizing t with
  | nil =>
    cases t with
    | nil => exact ⟨rfl, (List.cons.inj h).2⟩
    | cons b t => exact absurd ((List.cons.inj h).1 ▸ List.mem_cons_self) ht
  | cons b s ih =>
    cases t with
    | nil => exact absurd ((List.cons.inj h).1 ▸ List.mem_cons_self) hs
    | cons c t =>
      obtain ⟨rfl, htail⟩ := List.cons.inj h
      obtain ⟨rfl, rfl⟩ := ih (fun hmem => hs (List.mem_cons_of_mem _ hmem))
        (fun hmem => ht (List.mem_cons_of_mem _ hmem)) htail
      exact ⟨rfl, rfl⟩

theorem not_mem_rightpad {b : α} {n : Nat} (hs : b ∉ s) (hab : b ≠ a) : b ∉ s.rightpad n a := by
  rw [List.rightpad, List.mem_append, List.mem_replicate]
  exact fun h => h.elim hs fun hpad => hab hpad.2

theorem not_mem_leftpad {b : α} {n : Nat} (hs : b ∉ s) (hab : b ≠ a) : b ∉ s.leftpad n a := by
  rw [List.leftpad, List.mem_append, List.mem_replicate]
  exact fun h => h.elim (fun hpad => hab hpad.2) hs

theorem length_rightpad_of_le {n : Nat} (h : s.length ≤ n) : (s.rightpad n a).length = n := by
  rw [List.rightpad, List.length_append, List.length_replicate]
  omega

/-- A column on the left edge, of a fixed width. -/
theorem rightpad_append_inj {n : Nat} (hs : s.length ≤ n) (ht : t.length ≤ n)
    (hslast : s.getLast? ≠ some a) (htlast : t.getLast? ≠ some a)
    (h : s.rightpad n a ++ x = t.rightpad n a ++ y) : s = t ∧ x = y := by
  have hlen : (s.rightpad n a).length = (t.rightpad n a).length := by
    rw [length_rightpad_of_le hs, length_rightpad_of_le ht]
  obtain ⟨hcolumn, hrest⟩ := List.append_inj h hlen
  exact ⟨append_replicate_inj hslast htlast hcolumn, hrest⟩

theorem head?_append_cons (hs : a ∉ s) (hne : s ≠ []) : (s ++ a :: x).head? ≠ some a := by
  cases s with
  | nil => exact absurd rfl hne
  | cons b s =>
    intro h
    obtain rfl : b = a := Option.some.inj h
    exact hs List.mem_cons_self

/-- A column on the right edge, of any width, in front of the padding character. -/
theorem leftpad_append_inj {n : Nat} (hs : a ∉ s) (ht : a ∉ t) (hsne : s ≠ []) (htne : t ≠ [])
    (h : s.leftpad n a ++ a :: x = t.leftpad n a ++ a :: y) : s = t ∧ x = y := by
  rw [List.leftpad, List.leftpad, List.append_assoc, List.append_assoc] at h
  exact append_cons_inj hs ht
    (replicate_append_inj (head?_append_cons hs hsne) (head?_append_cons ht htne) h)

/-! ## Lines -/

/-- Lines with their ends. -/
def lines (sep : α) (ls : List (List α)) : List α := ls.flatMap fun l => l ++ [sep]

section Lines

variable {sep : α} {front front' : List α} {ls ls' : List (List α)}

theorem lines_cons : lines sep (front :: ls) = front ++ sep :: lines sep ls := by
  rw [lines, List.flatMap_cons, List.append_assoc]
  rfl

variable [BEq α] [LawfulBEq α]

theorem splitOn_lines (h : ∀ l ∈ ls, sep ∉ l) : (lines sep ls).splitOn sep = ls ++ [[]] := by
  induction ls with
  | nil => exact List.splitOn_nil sep
  | cons l ls ih =>
    obtain ⟨hl, hls⟩ := List.forall_mem_cons.mp h
    rw [lines_cons, List.splitOn_append_cons_self_of_not_mem hl, ih hls]
    rfl

/-- The lines behind the first one, which may hold the separator itself. -/
theorem lines_cons_inj (h : ∀ l ∈ ls, sep ∉ l) (h' : ∀ l ∈ ls', sep ∉ l)
    (heq : lines sep (front :: ls) = lines sep (front' :: ls')) :
    front.splitOn sep ++ ls = front'.splitOn sep ++ ls' := by
  have hsplit := congrArg (List.splitOn sep) heq
  rw [lines_cons, lines_cons, List.splitOn_append_cons_self, List.splitOn_append_cons_self,
    splitOn_lines h, splitOn_lines h', ← List.append_assoc, ← List.append_assoc] at hsplit
  exact (List.append_inj' hsplit rfl).1

end Lines

end Text
