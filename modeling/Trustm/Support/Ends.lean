import Trustm.Support.Footprint

/-!
# Ends of computations

What the values of a computation have in common, and what its errors have in common.

* `Outcome.Ends P E`: a value with `P` or an error with `E`. Nothing is said about a panic.
* `Effect.Ends P E`: the same on every state.
* one rule for each way to put computations together. The errors of the parts are those of the
  whole; a value only has to lead to good values of what follows.
* `Ends.performs_attempt`: what follows a caught error may rest on what the error can be.
-/

variable {σ τ ε ε' α β : Type}

namespace Outcome

variable {P : α → Prop} {Q : β → Prop} {E : ε → Prop} {x : Outcome ε α} {f : α → Outcome ε β}

structure Ends (P : α → Prop) (E : ε → Prop) (x : Outcome ε α) : Prop where
  value : ∀ a, x = .ok a → P a
  error : ∀ e, x = .err e → E e

theorem ends_ok {a : α} (h : P a) : (ok a : Outcome ε α).Ends P E where
  value _ hb := Outcome.ok.inj hb ▸ h
  error _ he := by cases he

theorem ends_err {e : ε} (h : E e) : (err e : Outcome ε α).Ends P E where
  value _ ha := by cases ha
  error _ he := Outcome.err.inj he ▸ h

theorem ends_panic : (panic : Outcome ε α).Ends P E where
  value _ ha := by cases ha
  error _ he := by cases he

theorem Ends.mono {P' : α → Prop} (h : x.Ends P E) (hP : ∀ a, P a → P' a) : x.Ends P' E :=
  ⟨fun a ha => hP a (h.value a ha), h.error⟩

theorem Ends.bind (hx : x.Ends P E) (hf : ∀ a, P a → (f a).Ends Q E) : (x >>= f).Ends Q E := by
  cases x with
  | ok a => exact hf a (hx.value a rfl)
  | err e => exact ends_err (hx.error e rfl)
  | panic => exact ends_panic

/-- A test in front of what follows. -/
theorem ends_ite {c : Prop} [Decidable c] {y : Outcome ε α} (hx : c → x.Ends P E)
    (hy : ¬ c → y.Ends P E) : (if c then x else y).Ends P E := by
  by_cases hc : c
  · rw [if_pos hc]
    exact hx hc
  · rw [if_neg hc]
    exact hy hc

/-! ### Steps that can only panic -/

theorem ends_index (xs : List α) (i : Nat) :
    (index xs i : Outcome ε α).Ends (fun _ => True) E := by
  unfold index
  split
  · exact ends_ok trivial
  · exact ends_panic

theorem ends_sliceTo (xs : List α) (j : Nat) :
    (sliceTo xs j : Outcome ε (List α)).Ends (fun _ => True) E :=
  ends_ite (fun _ => ends_ok trivial) fun _ => ends_panic

theorem ends_sliceFrom (xs : List α) (i : Nat) :
    (sliceFrom xs i : Outcome ε (List α)).Ends (fun _ => True) E :=
  ends_ite (fun _ => ends_ok trivial) fun _ => ends_panic

theorem ends_slice (xs : List α) (i j : Nat) :
    (slice xs i j : Outcome ε (List α)).Ends (fun _ => True) E :=
  ends_ite (fun _ => ends_ok trivial) fun _ => ends_panic

theorem ends_copyFromSlice (dst src : List α) :
    (copyFromSlice dst src : Outcome ε (List α)).Ends (fun _ => True) E :=
  ends_ite (fun _ => ends_ok trivial) fun _ => ends_panic

theorem ends_sub (a b : Nat) : (sub a b : Outcome ε Nat).Ends (fun _ => True) E :=
  ends_ite (fun _ => ends_ok trivial) fun _ => ends_panic

theorem ends_vec (x : α) (n : Nat) : (vec x n : Outcome ε (List α)).Ends (fun _ => True) E :=
  ends_ite (fun _ => ends_ok trivial) fun _ => ends_panic

end Outcome

namespace Effect

variable {P : α → Prop} {Q : β → Prop} {E : ε → Prop} {x : Effect σ ε α} {f : α → Effect σ ε β}

def Ends (P : α → Prop) (E : ε → Prop) (x : Effect σ ε α) : Prop := ∀ s, (x s).1.Ends P E

theorem ends_pure {a : α} (h : P a) : (pure a : Effect σ ε α).Ends P E :=
  fun _ => Outcome.ends_ok h

theorem ends_lift {o : Outcome ε α} (h : o.Ends P E) : (lift o : Effect σ ε α).Ends P E :=
  fun _ => h

theorem ends_modify (g : σ → σ) : (modify g : Effect σ ε Unit).Ends (fun _ => True) E :=
  fun _ => Outcome.ends_ok trivial

theorem Ends.bind (hx : x.Ends P E) (hf : ∀ a, P a → (f a).Ends Q E) : (x >>= f).Ends Q E := by
  intro s
  have hxs := hx s
  cases h : x s with
  | mk r t =>
    rw [h] at hxs
    cases r with
    | ok a =>
      rw [bind_of_ok h]
      exact hf a (hxs.value a rfl) t
    | err e =>
      rw [bind_of_err h]
      exact Outcome.ends_err (hxs.error e rfl)
    | panic =>
      rw [bind_of_panic h]
      exact Outcome.ends_panic

/-- A caught error is a value with the property of an error. -/
theorem Ends.attempt {E' : ε' → Prop} (hx : x.Ends P E) :
    (attempt x : Effect σ ε' (Except ε α)).Ends (fun r => (Outcome.ofExcept r).Ends P E) E' := by
  intro s
  have hxs := hx s
  unfold Effect.attempt
  cases h : x s with
  | mk r t =>
    rw [h] at hxs
    cases r with
    | ok a => exact Outcome.ends_ok hxs
    | err e => exact Outcome.ends_ok hxs
    | panic => exact Outcome.ends_panic

theorem Ends.on {x : Effect τ ε α} (hx : x.Ends P E) (view : σ → τ) (put : τ → σ → σ) :
    (on view put x).Ends P E :=
  fun s => hx (view s)

/-- The footprint behind a caught error, for the ends that there can be. -/
theorem Ends.performs_attempt {κ : Type} {view : σ → τ} {act : τ → κ → τ} {K : κ → Prop}
    {g : Except ε α → Effect σ ε' β} (hends : x.Ends P E)
    (hx : Performs view act x (Language.wordsOf K))
    (hg : ∀ r, (Outcome.ofExcept r).Ends P E → Performs view act (g r) (Language.wordsOf K)) :
    Performs view act (Effect.attempt x >>= g) (Language.wordsOf K) := by
  intro s
  have hxs := hends s
  obtain ⟨ks, hks, hview⟩ := hx s
  have hgoes {r : Except ε α} {t : σ} (ht : view t = ks.foldl act (view s))
      (hr : (Outcome.ofExcept r).Ends P E) :
      ∃ ls ∈ Language.wordsOf K, view (g r t).2 = ls.foldl act (view s) := by
    obtain ⟨ls, hls, hview'⟩ := hg r hr t
    refine ⟨ks ++ ls, fun k hk => (List.mem_append.mp hk).elim (hks k) (hls k), ?_⟩
    rw [hview', ht, List.foldl_append]
  cases h : x s with
  | mk r t =>
    rw [h] at hxs hview
    cases r with
    | ok a =>
      rw [bind_of_ok (attempt_of_ok h)]
      exact hgoes hview hxs
    | err e =>
      rw [bind_of_ok (attempt_of_err h)]
      exact hgoes hview hxs
    | panic =>
      have hpanic : (Effect.attempt x : Effect σ ε' (Except ε α)) s = (.panic, t) := by
        rw [Effect.attempt, h]
      rw [bind_of_panic hpanic]
      exact ⟨ks, hks, hview⟩

end Effect
