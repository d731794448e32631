import Mathlib.Algebra.GroupWithZero.Nat
import Trustm.Support.Run

/-!
# Traces, simulation and potential

What a run shows to the outside, and three rules for runs of a partial step function.

* `trace step label s as`: the labels of the steps, in their order. A step may show nothing.
* `Reaches step C label s es t`: a run from `s` to `t` that shows `es`, each step under `C`.
* `exec_trace_of_simulation`: a relation that every step preserves carries the trace of a run
  to an automaton that accepts labels.
* `countP_le_of_step`: a potential that pays for steps of a kind bounds their number in a run.
* `exists_exec_of_rank`: a rank that some step always lowers is brought down to zero.
-/

namespace Run

variable {σ α ε τ : Type*} {step : σ → α → Option σ} {label : σ → α → List ε}

/-! ## Traces -/

/-- What the run shows. -/
def trace (step : σ → α → Option σ) (label : σ → α → List ε) : σ → List α → List ε
  | _, [] => []
  | s, a :: as => label s a ++ (step s a).elim [] fun t => trace step label t as

@[simp] theorem trace_nil (s : σ) : trace step label s [] = [] := rfl

theorem trace_cons {s t : σ} {a : α} (as : List α) (h : step s a = some t) :
    trace step label s (a :: as) = label s a ++ trace step label t as := by
  rw [trace, h, Option.elim_some]

theorem trace_append {s t : σ} {as : List α} (bs : List α) (h : exec step s as = some t) :
    trace step label s (as ++ bs) = trace step label s as ++ trace step label t bs := by
  induction as generalizing s with
  | nil =>
    cases h
    rfl
  | cons a as ih =>
    obtain ⟨u, hu, ht⟩ := exec_cons_iff.mp h
    rw [List.cons_append, trace_cons _ hu, trace_cons _ hu, ih ht, List.append_assoc]

theorem Meets.append {C : σ → α → Prop} {s t : σ} {as bs : List α} (h : Meets step C s as)
    (ht : exec step s as = some t) (hbs : Meets step C t bs) : Meets step C s (as ++ bs) := by
  induction as generalizing s with
  | nil =>
    cases ht
    exact hbs
  | cons a as ih =>
    obtain ⟨u, hu, ht⟩ := exec_cons_iff.mp ht
    intro v hv
    obtain rfl : u = v := Option.some.inj (hu.symm.trans hv)
    exact ⟨(h u hu).1, ih (h u hu).2 ht⟩

/-- Some run leads from `s` to `t`, takes every action where it meets `C`, and shows `es`. -/
def Reaches (step : σ → α → Option σ) (C : σ → α → Prop) (label : σ → α → List ε) (s : σ)
    (es : List ε) (t : σ) : Prop :=
  ∃ as, exec step s as = some t ∧ Meets step C s as ∧ trace step label s as = es

namespace Reaches

variable {C : σ → α → Prop} {s t u : σ} {es fs : List ε}

theorem refl : Reaches step C label s [] s := ⟨[], rfl, trivial, rfl⟩

theorem of_step {a : α} (h : step s a = some t) (ha : C s a) :
    Reaches step C label s (label s a) t := by
  refine ⟨[a], exec_cons_iff.mpr ⟨t, h, rfl⟩, fun _ _ => ⟨ha, trivial⟩, ?_⟩
  rw [trace_cons [] h, trace_nil, List.append_nil]

theorem trans (h : Reaches step C label s es t) (h' : Reaches step C label t fs u) :
    Reaches step C label s (es ++ fs) u := by
  obtain ⟨as, hexec, hC, rfl⟩ := h
  obtain ⟨bs, hexec', hC', rfl⟩ := h'
  exact ⟨as ++ bs, exec_append_iff.mpr ⟨t, hexec, hexec'⟩, hC.append hexec hC',
    trace_append bs hexec⟩

/-- One more step, which shows nothing. -/
theorem silent {a : α} (h : Reaches step C label s es t) (hstep : step t a = some u) (ha : C t a)
    (hlabel : label t a = []) : Reaches step C label s es u := by
  have hlast : Reaches step C label t [] u := hlabel ▸ of_step hstep ha
  have hall := h.trans hlast
  rwa [List.append_nil] at hall

end Reaches

/-! ## Simulation -/

/-- A relation between the states of a system and those of an automaton, kept by every step
under its condition, makes the automaton accept what the run shows. -/
theorem exec_trace_of_simulation {accept : τ → ε → Option τ} {R : σ → τ → Prop}
    {C : σ → α → Prop}
    (hstep : ∀ s a t u, R s u → C s a → step s a = some t →
      ∃ v, exec accept u (label s a) = some v ∧ R t v)
    {s t : σ} {u : τ} {as : List α} (h0 : R s u) (hC : Meets step C s as)
    (ht : exec step s as = some t) :
    ∃ v, exec accept u (trace step label s as) = some v ∧ R t v := by
  induction as generalizing s u with
  | nil =>
    cases ht
    exact ⟨u, rfl, h0⟩
  | cons a as ih =>
    obtain ⟨w, hw, ht⟩ := exec_cons_iff.mp ht
    obtain ⟨ha, hC⟩ := hC w hw
    obtain ⟨v, hv, hR⟩ := hstep s a w u h0 ha hw
    obtain ⟨v', hv', hR'⟩ := ih hR hC ht
    refine ⟨v', ?_, hR'⟩
    rw [trace_cons _ hw]
    exact exec_append_iff.mpr ⟨v, hv, hv'⟩

/-! ## Potential -/

/-- Steps of a kind are paid from the potential, or by the credit of some steps. -/
theorem countP_le_of_step {pot : σ → Nat} {counts : α → Bool} {credit : α → Nat}
    (hstep : ∀ s a t, step s a = some t → (counts a).toNat + pot t ≤ pot s + credit a)
    {s t : σ} {as : List α} (ht : exec step s as = some t) :
    as.countP counts + pot t ≤ pot s + (as.map credit).sum := by
  induction as generalizing s with
  | nil =>
    cases ht
    simp
  | cons a as ih =>
    obtain ⟨u, hu, ht⟩ := exec_cons_iff.mp ht
    have hfirst := hstep s a u hu
    have hrest := ih ht
    have hcount : (a :: as).countP counts = as.countP counts + (counts a).toNat := by
      rw [List.countP_cons]
      cases counts a <;> rfl
    rw [hcount, List.map_cons, List.sum_cons]
    omega

/-- From a state of positive rank a step leads down; so some run leads to rank zero. -/
theorem exists_exec_of_rank {I : σ → Prop} {rank : σ → Nat}
    (hstep : ∀ s, I s → 0 < rank s → ∃ a t, step s a = some t ∧ I t ∧ rank t < rank s) {s : σ}
    (h : I s) : ∃ as t, exec step s as = some t ∧ I t ∧ rank t = 0 := by
  induction hn : rank s using Nat.strongRecOn generalizing s with
  | ind n ih =>
    rcases Nat.eq_zero_or_pos (rank s) with hzero | hpos
    · exact ⟨[], s, rfl, h, hzero⟩
    · obtain ⟨a, t, hstep, ht, hlt⟩ := hstep s h hpos
      obtain ⟨as, u, hexec, hu⟩ := ih (rank t) (hn ▸ hlt) ht rfl
      exact ⟨a :: as, u, exec_cons_iff.mpr ⟨t, hstep, hexec⟩, hu⟩

/-! ## Components -/

/-- A component that joins looks as it did before, when it was not there. -/
theorem getD_map_concat {π β : Type*} (f : π → β) (ps : List π) (p : π) (i : Nat) :
    ((ps ++ [p])[i]?.map f).getD (f p) = (ps[i]?.map f).getD (f p) := by
  rcases Nat.lt_trichotomy i ps.length with hlt | rfl | hgt
  · rw [List.getElem?_append_left hlt]
  · rw [List.getElem?_concat_length, List.getElem?_eq_none (Nat.le_refl _)]
    rfl
  · have hge : (ps ++ [p]).length ≤ i := by
      rw [List.length_append]
      exact hgt
    rw [List.getElem?_eq_none hge, List.getElem?_eq_none (Nat.le_of_lt hgt)]

/-- A component was there before, or is the one that joins. -/
theorem getElem?_concat_cases {π : Type*} {ps : List π} {p q : π} {i : Nat}
    (h : (ps ++ [p])[i]? = some q) : ps[i]? = some q ∨ i = ps.length ∧ q = p := by
  by_cases hi : i < ps.length
  · rw [List.getElem?_append_left hi] at h
    exact Or.inl h
  · have hle := Nat.le_of_not_lt hi
    rw [List.getElem?_append_right hle, List.getElem?_singleton] at h
    split at h
    · cases h
      exact Or.inr ⟨by omega, rfl⟩
    · cases h

/-- A rank that is a sum over components changes by the component that is replaced. -/
theorem sum_map_set {π : Type*} (f : π → Nat) {ps : List π} {i : Nat} {p : π}
    (hi : ps[i]? = some p) (q : π) : ((ps.set i q).map f).sum + f p = (ps.map f).sum + f q := by
  induction ps generalizing i with
  | nil => simp at hi
  | cons r ps ih =>
    cases i with
    | zero =>
      obtain rfl : r = p := Option.some.inj hi
      simp only [List.set_cons_zero, List.map_cons, List.sum_cons]
      omega
    | succ i =>
      have hrest := ih (i := i) hi
      simp only [List.set_cons_succ, List.map_cons, List.sum_cons]
      omega

end Run
