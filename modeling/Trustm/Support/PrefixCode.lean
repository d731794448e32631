import Mathlib.InformationTheory.Coding.UniquelyDecodable

/-!
# Prefix codes

Sets of words in which no word goes on where another one ends, and words that announce their own
length.

* `PrefixFree.uniquelyDecodable`: a row of words of such a set is split in one way only.
* `Announces len`: a length that is read off the front of a string, whatever follows. The strings
  that are as long as they announce are a prefix code (`Announces.prefixFree`).
-/

namespace PrefixCode

open InformationTheory

variable {α : Type*} {S : Set (List α)} {len : List α → Option Nat} {u v xs ys : List α} {n : Nat}

def PrefixFree (S : Set (List α)) : Prop := ∀ u ∈ S, ∀ v ∈ S, u <+: v → u = v

/-- The first word of a string is the only one at its front. -/
theorem PrefixFree.append_inj (h : PrefixFree S) (hu : u ∈ S) (hv : v ∈ S)
    (heq : u ++ xs = v ++ ys) : u = v ∧ xs = ys := by
  have hsame : u = v := by
    have hfirst : u <+: v ++ ys := heq ▸ List.prefix_append u xs
    rcases List.prefix_or_prefix_of_prefix hfirst (List.prefix_append v ys) with huv | hvu
    · exact h u hu v hv huv
    · exact (h v hv u hu hvu).symm
  subst hsame
  exact ⟨rfl, List.append_cancel_left heq⟩

theorem PrefixFree.uniquelyDecodable (h : PrefixFree S) (hnil : [] ∉ S) :
    UniquelyDecodable S := by
  intro us vs hus hvs heq
  induction us generalizing vs with
  | nil =>
    cases vs with
    | nil => rfl
    | cons v vs =>
      have hv : v = [] := (List.append_eq_nil_iff.mp heq.symm).1
      exact absurd (hvs v List.mem_cons_self) (hv ▸ hnil)
  | cons u us ih =>
    obtain ⟨hu, hus⟩ := List.forall_mem_cons.mp hus
    cases vs with
    | nil =>
      have hnone : u = [] := (List.append_eq_nil_iff.mp heq).1
      exact absurd hu (hnone ▸ hnil)
    | cons v vs =>
      obtain ⟨hv, hvs'⟩ := List.forall_mem_cons.mp hvs
      obtain ⟨rfl, hrest⟩ := h.append_inj hu hv heq
      rw [ih vs hus hvs' hrest]

/-! ## Words that announce their length -/

/-- Nothing behind the announcement changes it. -/
def Announces (len : List α → Option Nat) : Prop :=
  ∀ xs ys n, len xs = some n → len (xs ++ ys) = some n

/-- The strings that are as long as they announce. -/
def whole (len : List α → Option Nat) : Set (List α) := {u | len u = some u.length}

theorem Announces.prefixFree (h : Announces len) : PrefixFree (whole len) := by
  intro u hu v hv hprefix
  obtain ⟨xs, rfl⟩ := hprefix
  have hlen : some u.length = some (u ++ xs).length :=
    (h u xs u.length hu).symm.trans hv
  rw [Option.some.injEq, List.length_append] at hlen
  have hxs : xs = [] := List.length_eq_zero_iff.mp (by omega)
  rw [hxs, List.append_nil]

theorem Announces.uniquelyDecodable (h : Announces len) (hnil : len [] = none) :
    UniquelyDecodable (whole len) := by
  apply h.prefixFree.uniquelyDecodable
  intro hmem
  have hzero : len [] = some 0 := hmem
  rw [hnil] at hzero
  cases hzero

end PrefixCode
