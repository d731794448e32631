import Mathlib.Order.CompletePartialOrder
import Mathlib.Computability.Language
import Trustm.Support.Effect

/-!
# Footprints

What a computation does to a part of its state, as a language of actions. A step after an error
is not taken, so the language of a computation has a word for each of its ends.

* `Performs view act x L`: whatever the outcome, the part that `view` shows goes through the
  actions of a word of `L`.
* `Settles`: a computation that always ends in a value, so that what follows it is always run.
* one rule for each way to put computations together: concatenation of languages for steps that
  follow one another, and the first language once more where the first step may end in an error.
* `Language.wordsOf P` has all words of the actions with `P`. `Performs.keeps`: what these actions
  keep is kept.
-/

namespace Effect

variable {σ τ κ ε ε' α β : Type} {view : σ → τ} {act : τ → κ → τ} {x : Effect σ ε α}
  {f : α → Effect σ ε β} {L M : Language κ}

/-! ## Computations without an error -/

def Settles (x : Effect σ ε α) : Prop := ∀ s, ∃ a t, x s = (.ok a, t)

/-! ## Footprints -/

def Performs (view : σ → τ) (act : τ → κ → τ) (x : Effect σ ε α) (L : Language κ) : Prop :=
  ∀ s, ∃ ks ∈ L, view (x s).2 = ks.foldl act (view s)

theorem Performs.mono (h : Performs view act x L) (hle : L ≤ M) : Performs view act x M := by
  intro s
  obtain ⟨ks, hks, hview⟩ := h s
  exact ⟨ks, hle hks, hview⟩

/-- The part is left as it was. -/
theorem performs_one (h : ∀ s, view (x s).2 = view s) : Performs view act x 1 :=
  fun s => ⟨[], Language.nil_mem_one, h s⟩

theorem performs_lift (o : Outcome ε α) : Performs view act (lift o) 1 := performs_one fun _ => rfl

theorem performs_pure (a : α) : Performs view act (pure a : Effect σ ε α) 1 :=
  performs_one fun _ => rfl

/-- One action. -/
theorem performs_singleton {k : κ} (h : ∀ s, view (x s).2 = act (view s) k) :
    Performs view act x {[k]} :=
  fun s => ⟨[k], rfl, h s⟩

theorem Performs.attempt (h : Performs view act x L) :
    Performs view act (attempt x : Effect σ ε' (Except ε α)) L := by
  intro s
  obtain ⟨ks, hks, hview⟩ := h s
  refine ⟨ks, hks, ?_⟩
  rw [← hview, Effect.attempt]
  cases x s with
  | mk r t => cases r <;> rfl

theorem Performs.bind (hx : Performs view act x L) (hf : ∀ a, Performs view act (f a) M) :
    Performs view act (x >>= f) (L * M + L) := by
  intro s
  obtain ⟨ks, hks, hview⟩ := hx s
  cases hxs : x s with
  | mk r t =>
    rw [hxs] at hview
    cases r with
    | ok a =>
      obtain ⟨ls, hls, hview'⟩ := hf a t
      refine ⟨ks ++ ls, Or.inl (Language.append_mem_mul hks hls), ?_⟩
      rw [bind_of_ok hxs, hview', hview, List.foldl_append]
    | err e =>
      refine ⟨ks, Or.inr hks, ?_⟩
      rw [bind_of_err hxs, hview]
    | panic =>
      refine ⟨ks, Or.inr hks, ?_⟩
      rw [bind_of_panic hxs, hview]

/-- What is done with the value does not act. -/
theorem Performs.bind_one (hx : Performs view act x L) (hf : ∀ a, Performs view act (f a) 1) :
    Performs view act (x >>= f) L := by
  have h := hx.bind hf
  rwa [mul_one, add_idem] at h

/-- A first step that always ends in a value. -/
theorem Performs.seq (hx : Performs view act x L) (hsettles : Settles x)
    (hf : ∀ a, Performs view act (f a) M) : Performs view act (x >>= f) (L * M) := by
  intro s
  obtain ⟨ks, hks, hview⟩ := hx s
  obtain ⟨a, t, hxs⟩ := hsettles s
  obtain ⟨ls, hls, hview'⟩ := hf a t
  refine ⟨ks ++ ls, Language.append_mem_mul hks hls, ?_⟩
  rw [hxs] at hview
  rw [bind_of_ok hxs, hview', hview, List.foldl_append]

/-- The rounds of a loop, in their order. -/
theorem Performs.forM {f : α → Effect σ ε Unit} {L : α → Language κ} {as : List α}
    (hf : ∀ a ∈ as, Performs view act (f a) (L a) ∧ Settles (f a)) :
    Performs view act (as.forM f) (as.map L).prod := by
  induction as with
  | nil => exact performs_pure ()
  | cons a as ih =>
    obtain ⟨hperforms, hsettles⟩ := hf a List.mem_cons_self
    rw [List.map_cons, List.prod_cons]
    exact hperforms.seq hsettles fun _ => ih fun b hb => hf b (List.mem_cons_of_mem a hb)

end Effect

/-! ## Words over an alphabet -/

namespace Language

variable {κ : Type} {P : κ → Prop} {L M : Language κ}

/-- The words of some actions only. -/
def wordsOf (P : κ → Prop) : Language κ := {ks : List κ | ∀ k ∈ ks, P k}

theorem one_le_wordsOf : 1 ≤ wordsOf P := by
  intro ks hks k hk
  rw [(Language.mem_one ks).mp hks] at hk
  cases hk

theorem mul_le_wordsOf (hL : L ≤ wordsOf P) (hM : M ≤ wordsOf P) : L * M ≤ wordsOf P := by
  intro ks hks k hk
  obtain ⟨as, has, bs, hbs, rfl⟩ := Language.mem_mul.mp hks
  rcases List.mem_append.mp hk with h | h
  · exact hL has k h
  · exact hM hbs k h

theorem add_le_wordsOf (hL : L ≤ wordsOf P) (hM : M ≤ wordsOf P) : L + M ≤ wordsOf P := by
  intro ks hks
  rcases hks with h | h
  · exact hL h
  · exact hM h

theorem singleton_le_wordsOf {ks : List κ} (h : ∀ k ∈ ks, P k) :
    ({ks} : Language κ) ≤ wordsOf P := by
  intro ls hls
  obtain rfl : ls = ks := hls
  exact h

theorem prod_le_wordsOf {Ls : List (Language κ)} (h : ∀ L ∈ Ls, L ≤ wordsOf P) :
    Ls.prod ≤ wordsOf P := by
  induction Ls with
  | nil => exact one_le_wordsOf
  | cons L Ls ih =>
    rw [List.prod_cons]
    exact mul_le_wordsOf (h L List.mem_cons_self) (ih fun M hM => h M (List.mem_cons_of_mem L hM))

end Language

/-! ## Footprints over an alphabet -/

namespace Effect

open Language

variable {σ τ κ ε ε' α β : Type} {view : σ → τ} {act : τ → κ → τ} {x : Effect σ ε α}
  {f : α → Effect σ ε β} {P : κ → Prop}

theorem Performs.bind_wordsOf (hx : Performs view act x (wordsOf P))
    (hf : ∀ a, Performs view act (f a) (wordsOf P)) : Performs view act (x >>= f) (wordsOf P) :=
  (hx.bind hf).mono (add_le_wordsOf (mul_le_wordsOf le_rfl le_rfl) le_rfl)

theorem Performs.forM_wordsOf {f : α → Effect σ ε Unit} {as : List α}
    (hf : ∀ a ∈ as, Performs view act (f a) (wordsOf P)) :
    Performs view act (as.forM f) (wordsOf P) := by
  induction as with
  | nil => exact (performs_pure ()).mono one_le_wordsOf
  | cons a as ih =>
    exact (hf a List.mem_cons_self).bind_wordsOf fun _ =>
      ih fun b hb => hf b (List.mem_cons_of_mem a hb)

/-- A part that is left as it was, under any alphabet. -/
theorem performs_wordsOf_of_eq (h : ∀ s, view (x s).2 = view s) :
    Performs view act x (wordsOf P) :=
  (performs_one h).mono one_le_wordsOf

/-- What every action of the alphabet keeps, the computation keeps. -/
theorem Performs.keeps {I : τ → Prop} (hx : Performs view act x (wordsOf P))
    (hact : ∀ t k, P k → I t → I (act t k)) {s : σ} (hs : I (view s)) : I (view (x s).2) := by
  obtain ⟨ks, hks, hview⟩ := hx s
  rw [hview]
  clear hview
  generalize view s = t at hs
  induction ks generalizing t with
  | nil => exact hs
  | cons k ks ih =>
    exact ih (fun l hl => hks l (List.mem_cons_of_mem k hl)) (act t k)
      (hact t k (hks k List.mem_cons_self) hs)

end Effect
