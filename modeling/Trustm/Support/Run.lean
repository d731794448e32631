import Mathlib.Data.List.Induction

/-!
# Runs of a partial step function

A system is a function `step : σ → α → Option σ`: which actions a state allows and where they
lead. A run is a list of actions.

* `exec step s as` is the state after the run, if every action was allowed.
* `Always step P s as`: `P` holds in every state the run passes through, both ends included
  (`always_iff_prefix`).
* `Meets step C s as`: every action the run takes, it takes in a state that meets `C`.
* `always_of_step` is the invariant rule: what one step preserves under a condition, a run
  whose steps all meet the condition preserves. `exec_induction` is the same rule for what
  relates a run to its final state.
-/

namespace Run

variable {σ α : Type*} (step : σ → α → Option σ)

/-- The state after the actions `as`. -/
def exec : σ → List α → Option σ
  | s, [] => some s
  | s, a :: as => (step s a).bind fun t => exec t as

/-- `P` holds in every state of the run. -/
def Always (P : σ → Prop) : σ → List α → Prop
  | s, [] => P s
  | s, a :: as => P s ∧ ∀ t, step s a = some t → Always P t as

/-- Every action of the run is taken in a state that meets `C`. -/
def Meets (C : σ → α → Prop) : σ → List α → Prop
  | _, [] => True
  | s, a :: as => ∀ t, step s a = some t → C s a ∧ Meets C t as

variable {step}

@[simp] theorem exec_nil (s : σ) : exec step s [] = some s := rfl

theorem exec_cons_iff {s u : σ} {a : α} {as : List α} :
    exec step s (a :: as) = some u ↔ ∃ t, step s a = some t ∧ exec step t as = some u :=
  Option.bind_eq_some_iff

theorem exec_append_iff {s u : σ} {as bs : List α} :
    exec step s (as ++ bs) = some u ↔ ∃ t, exec step s as = some t ∧ exec step t bs = some u := by
  induction as generalizing s with
  | nil => simp
  | cons a as ih =>
    simp only [List.cons_append, exec_cons_iff, ih]
    constructor
    · rintro ⟨t, hstep, v, hv, hu⟩
      exact ⟨v, ⟨t, hstep, hv⟩, hu⟩
    · rintro ⟨v, ⟨t, hstep, hv⟩, hu⟩
      exact ⟨t, hstep, v, hv, hu⟩

theorem exec_snoc_iff {s u : σ} {as : List α} {a : α} :
    exec step s (as ++ [a]) = some u ↔ ∃ t, exec step s as = some t ∧ step t a = some u := by
  rw [exec_append_iff]
  constructor
  · rintro ⟨t, ht, hu⟩
    obtain ⟨v, hv, he⟩ := exec_cons_iff.mp hu
    exact ⟨t, ht, by rw [hv, ← he, exec_nil]⟩
  · rintro ⟨t, ht, hu⟩
    exact ⟨t, ht, exec_cons_iff.mpr ⟨u, hu, rfl⟩⟩

/-! ## States and steps of a run -/

theorem Always.first {P : σ → Prop} {s : σ} {as : List α} (h : Always step P s as) : P s := by
  cases as with
  | nil => exact h
  | cons a as => exact h.1

theorem Always.suffix {P : σ → Prop} {s t : σ} {as bs : List α} (h : Always step P s (as ++ bs))
    (ht : exec step s as = some t) : Always step P t bs := by
  induction as generalizing s with
  | nil =>
    cases ht
    exact h
  | cons a as ih =>
    obtain ⟨v, hv, ht⟩ := exec_cons_iff.mp ht
    exact ih (h.2 v hv) ht

theorem Always.prefix {P : σ → Prop} {s : σ} {as bs : List α} (h : Always step P s (as ++ bs)) :
    Always step P s as := by
  induction as generalizing s with
  | nil => exact h.first
  | cons a as ih => exact ⟨h.1, fun t ht => ih (h.2 t ht)⟩

theorem Always.last {P : σ → Prop} {s t : σ} {as : List α} (h : Always step P s as)
    (ht : exec step s as = some t) : P t := by
  rw [← List.append_nil as] at h
  exact (h.suffix ht).first

theorem Always.append {P : σ → Prop} {s t : σ} {as bs : List α} (h : Always step P s as)
    (ht : exec step s as = some t) (hbs : Always step P t bs) : Always step P s (as ++ bs) := by
  induction as generalizing s with
  | nil =>
    cases ht
    exact hbs
  | cons a as ih =>
    refine ⟨h.1, fun u hu => ?_⟩
    obtain ⟨v, hv, ht⟩ := exec_cons_iff.mp ht
    obtain rfl : v = u := Option.some.inj (hv.symm.trans hu)
    exact ih (h.2 v hu) ht

/-- `Always` speaks about the states after the prefixes of the run. -/
theorem always_iff_prefix {P : σ → Prop} {s : σ} {as : List α} :
    Always step P s as ↔
      ∀ pre post t, as = pre ++ post → exec step s pre = some t → P t := by
  constructor
  · rintro h pre post t rfl ht
    exact h.prefix.last ht
  · intro h
    induction as generalizing s with
    | nil => exact h [] [] s rfl rfl
    | cons a as ih =>
      refine ⟨h [] (a :: as) s rfl rfl, fun t ht => ih fun pre post u he hu => ?_⟩
      exact h (a :: pre) post u (by rw [he, List.cons_append]) (exec_cons_iff.mpr ⟨t, ht, hu⟩)

theorem Meets.suffix {C : σ → α → Prop} {s t : σ} {as bs : List α}
    (h : Meets step C s (as ++ bs)) (ht : exec step s as = some t) : Meets step C t bs := by
  induction as generalizing s with
  | nil =>
    cases ht
    exact h
  | cons a as ih =>
    obtain ⟨v, hv, ht⟩ := exec_cons_iff.mp ht
    exact ih (h v hv).2 ht

theorem Meets.prefix {C : σ → α → Prop} {s : σ} {as bs : List α} (h : Meets step C s (as ++ bs)) :
    Meets step C s as := by
  induction as generalizing s with
  | nil => trivial
  | cons a as ih =>
    intro t ht
    exact ⟨(h t ht).1, ih (h t ht).2⟩

theorem meets_of_forall {C : σ → α → Prop} {s : σ} {as : List α} (h : ∀ a ∈ as, ∀ s, C s a) :
    Meets step C s as := by
  induction as generalizing s with
  | nil => trivial
  | cons a as ih =>
    intro t _
    exact ⟨h a List.mem_cons_self s, ih fun b hb => h b (List.mem_cons_of_mem a hb)⟩

theorem Meets.mono {C D : σ → α → Prop} {s : σ} {as : List α} (h : Meets step C s as)
    (hCD : ∀ s a, C s a → D s a) : Meets step D s as := by
  induction as generalizing s with
  | nil => trivial
  | cons a as ih =>
    intro t ht
    exact ⟨hCD s a (h t ht).1, ih (h t ht).2⟩

theorem Meets.and {C D : σ → α → Prop} {s : σ} {as : List α} (hC : Meets step C s as)
    (hD : Meets step D s as) : Meets step (fun s a => C s a ∧ D s a) s as := by
  induction as generalizing s with
  | nil => trivial
  | cons a as ih =>
    intro t ht
    exact ⟨⟨(hC t ht).1, (hD t ht).1⟩, ih (hC t ht).2 (hD t ht).2⟩

theorem Always.mono {P Q : σ → Prop} {s : σ} {as : List α} (h : Always step P s as)
    (hPQ : ∀ s, P s → Q s) : Always step Q s as := by
  induction as generalizing s with
  | nil => exact hPQ s h
  | cons a as ih => exact ⟨hPQ s h.1, fun t ht => ih (h.2 t ht)⟩

theorem Always.and {P Q : σ → Prop} {s : σ} {as : List α} (hP : Always step P s as)
    (hQ : Always step Q s as) : Always step (fun s => P s ∧ Q s) s as := by
  induction as generalizing s with
  | nil => exact ⟨hP, hQ⟩
  | cons a as ih => exact ⟨⟨hP.1, hQ.1⟩, fun t ht => ih (hP.2 t ht) (hQ.2 t ht)⟩

/-- A run whose states all satisfy `P` takes its steps between states that satisfy `P`. -/
theorem Always.meets {P : σ → Prop} {s : σ} {as : List α} (h : Always step P s as) :
    Meets step (fun s a => P s ∧ ∃ t, step s a = some t ∧ P t) s as := by
  induction as generalizing s with
  | nil => trivial
  | cons a as ih =>
    intro t ht
    exact ⟨⟨h.1, t, ht, (h.2 t ht).first⟩, ih (h.2 t ht)⟩

/-! ## The invariant rule -/

theorem always_of_step {I : σ → Prop} {C : σ → α → Prop}
    (hstep : ∀ s a t, I s → C s a → step s a = some t → I t) {s : σ} {as : List α}
    (h0 : I s) (hC : Meets step C s as) : Always step I s as := by
  induction as generalizing s with
  | nil => exact h0
  | cons a as ih =>
    refine ⟨h0, fun t ht => ?_⟩
    obtain ⟨ha, hC⟩ := hC t ht
    exact ih (hstep s a t h0 ha ht) hC

/-- The invariant rule without a condition on the steps. -/
theorem invariant {I : σ → Prop} (hstep : ∀ s a t, I s → step s a = some t → I t) {s t : σ}
    {as : List α} (h0 : I s) (ht : exec step s as = some t) : I t := by
  have hC : Meets step (fun _ _ => True) s as :=
    meets_of_forall fun _ _ _ => trivial
  exact (always_of_step (fun s a t hI _ => hstep s a t hI) h0 hC).last ht

/-- The rule for what relates a run to the state it leads to: it holds of the empty run, and
every further step preserves it. -/
theorem exec_induction {R : List α → σ → Prop} {C : σ → α → Prop} {s t : σ} {as : List α}
    (h0 : R [] s)
    (hstep : ∀ bs u a v, exec step s bs = some u → R bs u → C u a → step u a = some v →
      R (bs ++ [a]) v)
    (hC : Meets step C s as) (ht : exec step s as = some t) : R as t := by
  induction as using List.reverseRecOn generalizing t with
  | nil =>
    cases ht
    exact h0
  | append_singleton bs a ih =>
    obtain ⟨u, hu, hv⟩ := exec_snoc_iff.mp ht
    exact hstep bs u a t hu (ih hC.prefix hu) (hC.suffix hu t hv).1 hv

/-! ## Deciding on a given run -/

/-- A statement about the successor state, if there is one. -/
def decidableNext (o : Option σ) (Q : σ → Prop) (hQ : ∀ t, Decidable (Q t)) :
    Decidable (∀ t, o = some t → Q t) :=
  match o with
  | none => isTrue fun _ ht => by cases ht
  | some t => decidable_of_iff (Q t) ⟨fun h u hu => by cases hu; exact h, fun h => h t rfl⟩

instance decidableAlways {P : σ → Prop} [DecidablePred P] :
    ∀ (s : σ) (as : List α), Decidable (Always step P s as)
  | s, [] => inferInstanceAs (Decidable (P s))
  | s, a :: as =>
    have := decidableNext (step s a) (fun t => Always step P t as) fun t => decidableAlways t as
    inferInstanceAs (Decidable (P s ∧ ∀ t, step s a = some t → Always step P t as))

instance decidableMeets {C : σ → α → Prop} [∀ s a, Decidable (C s a)] :
    ∀ (s : σ) (as : List α), Decidable (Meets step C s as)
  | _, [] => isTrue trivial
  | s, a :: as =>
    decidableNext (step s a) (fun t => C s a ∧ Meets step C t as) fun t =>
      have : Decidable (Meets step C t as) := decidableMeets t as
      inferInstanceAs (Decidable (C s a ∧ Meets step C t as))

end Run
