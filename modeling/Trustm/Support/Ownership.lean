import Mathlib.Algebra.BigOperators.Group.List.Basic
import Mathlib.Algebra.Ring.Nat
import Mathlib.Data.List.Count

/-!
# Single ownership

A system of parties, each owning a list of objects, next to the list of the objects that are
alive. `Accounted owns ps live` says that every living object is alive once and has exactly
one owner, and that nothing else is owned. A party that takes over new objects and gives
others up keeps the account balanced (`Accounted.update`); every use of an owned object is
then a use of a living one (`Accounted.mem_live`).
-/

namespace Ownership

variable {π ω : Type*} [DecidableEq ω] (owns : π → List ω)

/-- How often `x` is owned. -/
def claims (ps : List π) (x : ω) : Nat := (ps.map fun p => (owns p).count x).sum

structure Accounted (ps : List π) (live : List ω) : Prop where
  once : ∀ x, live.count x ≤ 1
  owned : ∀ x, live.count x = claims owns ps x

@[simp] theorem claims_nil (x : ω) : claims owns [] x = 0 := rfl

theorem claims_append_singleton (ps : List π) (p : π) (x : ω) :
    claims owns (ps ++ [p]) x = claims owns ps x + (owns p).count x := by
  simp [claims]

/-- Replacing one party changes the claims by the difference of its objects. -/
theorem claims_set {ps : List π} {i : Nat} {p : π} (hi : ps[i]? = some p) (q : π) (x : ω) :
    claims owns (ps.set i q) x + (owns p).count x = claims owns ps x + (owns q).count x := by
  induction ps generalizing i with
  | nil => simp at hi
  | cons r ps ih =>
    cases i with
    | zero =>
      simp only [List.getElem?_cons_zero, Option.some.injEq] at hi
      subst hi
      simp only [claims, List.set_cons_zero, List.map_cons, List.sum_cons]
      omega
    | succ i =>
      simp only [List.getElem?_cons_succ] at hi
      have := ih hi
      simp only [claims, List.set_cons_succ, List.map_cons, List.sum_cons] at this ⊢
      omega

theorem count_le_claims {ps : List π} {i : Nat} {p : π} (hi : ps[i]? = some p) (x : ω) :
    (owns p).count x ≤ claims owns ps x := by
  induction ps generalizing i with
  | nil => simp at hi
  | cons r ps ih =>
    simp only [claims, List.map_cons, List.sum_cons]
    cases i with
    | zero =>
      simp only [List.getElem?_cons_zero, Option.some.injEq] at hi
      subst hi
      omega
    | succ i =>
      simp only [List.getElem?_cons_succ] at hi
      have := ih hi
      simp only [claims] at this
      omega

/-- When at most one party is of a kind, two parties of that kind are the same one. -/
theorem index_unique {ps : List π} {f : π → Bool} (h : ps.countP f ≤ 1) {i j : Nat} {p q : π}
    (hi : ps[i]? = some p) (hj : ps[j]? = some q) (hp : f p = true) (hq : f q = true) :
    i = j := by
  induction ps generalizing i j with
  | nil => simp at hi
  | cons r ps ih =>
    rw [List.countP_cons] at h
    have hno : ∀ {k : Nat} {x : π}, ps[k]? = some x → f x = true → f r = false := by
      intro k x hk hx
      have hpos := List.countP_pos_iff.mpr ⟨x, List.mem_of_getElem? hk, hx⟩
      by_contra hr
      rw [if_pos ((Bool.not_eq_false _).mp hr)] at h
      omega
    cases i with
    | zero =>
      obtain rfl : r = p := Option.some.inj hi
      cases j with
      | zero => rfl
      | succ j => simp [hno hj hq] at hp
    | succ i =>
      cases j with
      | zero =>
        obtain rfl : r = q := Option.some.inj hj
        simp [hno hi hp] at hq
      | succ j => rw [ih (by omega) hi hj]

/-- Every owner has a claim. -/
theorem countP_owns_le_claims (ps : List π) (x : ω) :
    ps.countP (fun p => decide (x ∈ owns p)) ≤ claims owns ps x := by
  induction ps with
  | nil => exact Nat.le_refl _
  | cons r ps ih =>
    rw [List.countP_cons]
    simp only [claims, List.map_cons, List.sum_cons] at ih ⊢
    by_cases hr : x ∈ owns r
    · have hpos := List.count_pos_iff.mpr hr
      simp only [hr, decide_true, if_true]
      omega
    · simp only [hr, decide_false, Bool.false_eq_true, if_false]
      omega

variable {owns}

theorem exists_owner_of_claims_pos {ps : List π} {x : ω} (h : 0 < claims owns ps x) :
    ∃ p ∈ ps, x ∈ owns p := by
  induction ps with
  | nil => simp at h
  | cons r ps ih =>
    by_cases hr : x ∈ owns r
    · exact ⟨r, List.mem_cons_self, hr⟩
    · have hpos : 0 < claims owns ps x := by
        simpa [claims, List.count_eq_zero.mpr hr] using h
      obtain ⟨p, hp, hx⟩ := ih hpos
      exact ⟨p, List.mem_cons_of_mem _ hp, hx⟩

namespace Accounted

theorem nil : Accounted owns [] [] := ⟨fun x => by simp, fun x => by simp⟩

theorem mem_live {ps : List π} {live : List ω} (h : Accounted owns ps live) {i : Nat} {p : π}
    (hi : ps[i]? = some p) {x : ω} (hx : x ∈ owns p) : x ∈ live := by
  have hpos : 0 < (owns p).count x := List.count_pos_iff.mpr hx
  have hle := count_le_claims owns hi x
  have howned := h.owned x
  exact List.count_pos_iff.mp (by omega)

theorem exists_owner {ps : List π} {live : List ω} (h : Accounted owns ps live) {x : ω}
    (hx : x ∈ live) : ∃ p ∈ ps, x ∈ owns p := by
  have hpos : 0 < live.count x := List.count_pos_iff.mpr hx
  exact exists_owner_of_claims_pos (h.owned x ▸ hpos)

theorem owner_unique {ps : List π} {live : List ω} (h : Accounted owns ps live) {i j : Nat}
    {p q : π} {x : ω} (hi : ps[i]? = some p) (hj : ps[j]? = some q) (hp : x ∈ owns p)
    (hq : x ∈ owns q) : i = j := by
  have hle := (countP_owns_le_claims owns ps x).trans ((h.owned x).symm.le.trans (h.once x))
  exact index_unique hle hi hj (decide_eq_true hp) (decide_eq_true hq)

/-- A party without objects may join. -/
theorem join {ps : List π} {live : List ω} (h : Accounted owns ps live) {p : π}
    (hp : owns p = []) : Accounted owns (ps ++ [p]) live :=
  ⟨h.once, fun x => by rw [claims_append_singleton, hp, ← h.owned x]; simp⟩

/-- One party takes over `new` objects, which were not alive, and gives up `old` ones. -/
theorem update {ps : List π} {live new old : List ω} {i : Nat} {p q : π}
    (h : Accounted owns ps live) (hi : ps[i]? = some p)
    (hnew : ∀ x, new.count x ≤ 1) (hfresh : ∀ x ∈ new, x ∉ live)
    (hbal : ∀ x, (owns p).count x + new.count x = (owns q).count x + old.count x) :
    Accounted owns (ps.set i q) ((new ++ live).diff old) := by
  have hlive : ∀ x, (new ++ live).count x ≤ 1 := by
    intro x
    rw [List.count_append]
    by_cases hx : x ∈ new
    · rw [List.count_eq_zero.mpr (hfresh x hx)]
      exact hnew x
    · rw [List.count_eq_zero.mpr hx, Nat.zero_add]
      exact h.once x
  refine ⟨fun x => ?_, fun x => ?_⟩
  · rw [List.count_diff]
    have := hlive x
    omega
  · have hset := claims_set owns hi q x
    have howned := h.owned x
    have hle := count_le_claims owns hi x
    have hb := hbal x
    rw [List.count_diff, List.count_append]
    omega

end Accounted

end Ownership
