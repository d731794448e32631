import Mathlib.Data.List.Basic
import Mathlib.Data.Nat.Find

/-!
# First occurrence of a pattern

The scan `xs.windows(n).position(|w| w == pat)` over a list.

* `OccursAt pat xs i`: the pattern starts at position `i`; `FirstAt` adds that it starts at no
  earlier position.
* `findIdx?_windows_eq_some_iff`, `findIdx?_windows_eq_none_iff`: the scan finds the first
  occurrence, and finds nothing only if there is none.
* `firstAt_append_iff`: what comes behind an occurrence does not matter.
-/

namespace Search

variable {α : Type*} {pat xs : List α} {i j : Nat}

/-- The stretches of `n` neighbouring elements, from left to right. -/
def windows (n : Nat) (xs : List α) : List (List α) :=
  (List.range (xs.length + 1 - n)).map fun i => (xs.drop i).take n

def OccursAt (pat xs : List α) (i : Nat) : Prop := pat <+: xs.drop i

instance [DecidableEq α] (pat xs : List α) (i : Nat) : Decidable (OccursAt pat xs i) :=
  inferInstanceAs (Decidable (pat <+: xs.drop i))

def FirstAt (pat xs : List α) (i : Nat) : Prop :=
  OccursAt pat xs i ∧ ∀ j, j < i → ¬ OccursAt pat xs j

theorem occursAt_iff_take : OccursAt pat xs i ↔ (xs.drop i).take pat.length = pat := by
  rw [OccursAt, List.prefix_iff_eq_take, eq_comm]

/-- An occurrence lies inside the list. -/
theorem OccursAt.le (h : OccursAt pat xs i) (hpat : pat ≠ []) : i + pat.length ≤ xs.length := by
  have hlen := List.IsPrefix.length_le h
  have hpos := List.length_pos_iff.mpr hpat
  rw [List.length_drop] at hlen
  omega

theorem length_windows (n : Nat) (xs : List α) : (windows n xs).length = xs.length + 1 - n := by
  simp [windows]

theorem getElem_windows {n : Nat} (h : i < (windows n xs).length) :
    (windows n xs)[i] = (xs.drop i).take n := by
  simp [windows]

theorem FirstAt.unique (hi : FirstAt pat xs i) (hj : FirstAt pat xs j) : i = j := by
  rcases Nat.lt_trichotomy i j with hlt | heq | hgt
  · exact absurd hi.1 (hj.2 i hlt)
  · exact heq
  · exact absurd hj.1 (hi.2 j hgt)

theorem OccursAt.exists_firstAt (h : OccursAt pat xs i) : ∃ j, j ≤ i ∧ FirstAt pat xs j := by
  classical
  have hex : ∃ k, OccursAt pat xs k := ⟨i, h⟩
  exact ⟨Nat.find hex, Nat.find_min' hex h, Nat.find_spec hex, fun k hk => Nat.find_min hex hk⟩

theorem exists_firstAt_or_forall (pat xs : List α) :
    (∃ i, FirstAt pat xs i) ∨ ∀ i, ¬ OccursAt pat xs i := by
  by_cases hocc : ∃ i, OccursAt pat xs i
  · obtain ⟨k, hk⟩ := hocc
    obtain ⟨i, _, hi⟩ := hk.exists_firstAt
    exact Or.inl ⟨i, hi⟩
  · exact Or.inr (not_exists.mp hocc)

/-- A pattern occurs when its two parts occur next to each other. -/
theorem occursAt_join_iff {p q : List α} :
    OccursAt (p ++ q) xs i ↔ OccursAt p xs i ∧ OccursAt q xs (i + p.length) := by
  constructor
  · rintro ⟨t, ht⟩
    refine ⟨⟨q ++ t, by rw [← ht, List.append_assoc]⟩, ⟨t, ?_⟩⟩
    rw [← List.drop_drop, ← ht, List.append_assoc, List.drop_left]
  · rintro ⟨⟨t, ht⟩, hq⟩
    rw [OccursAt, ← List.drop_drop, ← ht, List.drop_left] at hq
    obtain ⟨u, rfl⟩ := hq
    exact ⟨u, by rw [← ht, List.append_assoc]⟩

section

variable [DecidableEq α]

theorem findIdx?_windows_eq_some_iff (hpat : pat ≠ []) :
    (windows pat.length xs).findIdx? (fun w => decide (w = pat)) = some i ↔ FirstAt pat xs i := by
  have hlt : ∀ {k}, OccursAt pat xs k → k < (windows pat.length xs).length := by
    intro k hk
    have hle := hk.le hpat
    have hpos := List.length_pos_iff.mpr hpat
    rw [length_windows]
    omega
  rw [List.findIdx?_eq_some_iff_getElem]
  constructor
  · rintro ⟨hi, hfound, hbefore⟩
    rw [decide_eq_true_eq, getElem_windows] at hfound
    refine ⟨occursAt_iff_take.mpr hfound, fun j hj hocc => hbefore j hj ?_⟩
    rw [decide_eq_true_eq, getElem_windows]
    exact occursAt_iff_take.mp hocc
  · rintro ⟨hocc, hbefore⟩
    refine ⟨hlt hocc, ?_, fun j hj hfound => hbefore j hj ?_⟩
    · rw [decide_eq_true_eq, getElem_windows]
      exact occursAt_iff_take.mp hocc
    · rw [decide_eq_true_eq, getElem_windows] at hfound
      exact occursAt_iff_take.mpr hfound

theorem findIdx?_windows_eq_none_iff (hpat : pat ≠ []) :
    (windows pat.length xs).findIdx? (fun w => decide (w = pat)) = none ↔
      ∀ i, ¬ OccursAt pat xs i := by
  constructor
  · intro hnone i hocc
    obtain ⟨j, _, hfirst⟩ := hocc.exists_firstAt
    rw [(findIdx?_windows_eq_some_iff hpat).mpr hfirst] at hnone
    cases hnone
  · intro hall
    by_contra hsome
    obtain ⟨i, hi⟩ := Option.ne_none_iff_exists'.mp hsome
    exact hall i ((findIdx?_windows_eq_some_iff hpat).mp hi).1

end

/-! ## Occurrences in a longer list -/

theorem occursAt_append_iff {ys : List α} (hle : i + pat.length ≤ xs.length) :
    OccursAt pat (xs ++ ys) i ↔ OccursAt pat xs i := by
  rw [occursAt_iff_take, occursAt_iff_take, List.drop_append_of_le_length (by omega),
    List.take_append_of_le_length (by rw [List.length_drop]; omega)]

theorem firstAt_append_iff {ys : List α} (hle : i + pat.length ≤ xs.length) :
    FirstAt pat (xs ++ ys) i ↔ FirstAt pat xs i := by
  have hocc : ∀ j, j ≤ i → (OccursAt pat (xs ++ ys) j ↔ OccursAt pat xs j) := by
    intro j hj
    exact occursAt_append_iff (by omega)
  constructor
  · rintro ⟨hi, hbefore⟩
    exact ⟨(hocc i le_rfl).mp hi, fun j hj h => hbefore j hj ((hocc j (Nat.le_of_lt hj)).mpr h)⟩
  · rintro ⟨hi, hbefore⟩
    exact ⟨(hocc i le_rfl).mpr hi, fun j hj h => hbefore j hj ((hocc j (Nat.le_of_lt hj)).mp h)⟩

end Search
