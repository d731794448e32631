import Trustm.Support.Outcome

/-!
# Computations on a state

`Effect σ ε α` reads and writes a state `σ` and has an outcome. The state survives an error and
a panic: what was done before them stays done.

* the monad, `lift` for outcomes without an effect, `get` and `modify`, `attempt` for a caller
  that handles errors as values, and `on` for a computation on a part of the state.
* `bind_of_ok`, `bind_of_err` and `bind_of_panic` run the first step of a computation.
* `Ensures` is what holds of the outcome and the last state, with its rules.
-/

/-- A computation with an outcome that changes a state. -/
def Effect (σ ε α : Type) : Type := σ → Outcome ε α × σ

namespace Effect

variable {σ τ ε ε' α β : Type}

protected def bind (x : Effect σ ε α) (f : α → Effect σ ε β) : Effect σ ε β := fun s =>
  match x s with
  | (.ok a, t) => f a t
  | (.err e, t) => (.err e, t)
  | (.panic, t) => (.panic, t)

instance : Monad (Effect σ ε) where
  pure a := fun s => (.ok a, s)
  bind := Effect.bind

/-- An outcome, in any state. -/
def lift (x : Outcome ε α) : Effect σ ε α := fun s => (x, s)

def get : Effect σ ε σ := fun s => (.ok s, s)

def modify (f : σ → σ) : Effect σ ε Unit := fun s => (.ok (), f s)

/-- The result of `x` as a value. A panic is not caught. -/
def attempt (x : Effect σ ε α) : Effect σ ε' (Except ε α) := fun s =>
  match x s with
  | (.ok a, t) => (.ok (.ok a), t)
  | (.err e, t) => (.ok (.error e), t)
  | (.panic, t) => (.panic, t)

/-- `x` on the part of the state that `view` reads and `put` replaces. -/
def on (view : σ → τ) (put : τ → σ → σ) (x : Effect τ ε α) : Effect σ ε α := fun s =>
  ((x (view s)).1, put (x (view s)).2 s)

@[simp] theorem pure_apply (a : α) (s : σ) : (pure a : Effect σ ε α) s = (.ok a, s) := rfl

@[simp] theorem lift_apply (x : Outcome ε α) (s : σ) : (lift x : Effect σ ε α) s = (x, s) := rfl

@[simp] theorem get_apply (s : σ) : (get : Effect σ ε σ) s = (.ok s, s) := rfl

@[simp] theorem modify_apply (f : σ → σ) (s : σ) :
    (modify f : Effect σ ε Unit) s = (.ok (), f s) := rfl

@[simp] theorem on_apply (view : σ → τ) (put : τ → σ → σ) (x : Effect τ ε α) (s : σ) :
    on view put x s = ((x (view s)).1, put (x (view s)).2 s) := rfl

section Steps

variable {x : Effect σ ε α} {f : α → Effect σ ε β} {s t : σ}

theorem bind_of_ok {a : α} (h : x s = (.ok a, t)) : (x >>= f) s = f a t := by
  change Effect.bind x f s = f a t
  rw [Effect.bind, h]

theorem bind_of_err {e : ε} (h : x s = (.err e, t)) : (x >>= f) s = (.err e, t) := by
  change Effect.bind x f s = (.err e, t)
  rw [Effect.bind, h]

theorem bind_of_panic (h : x s = (.panic, t)) : (x >>= f) s = (.panic, t) := by
  change Effect.bind x f s = (.panic, t)
  rw [Effect.bind, h]

theorem attempt_of_ok {a : α} (h : x s = (.ok a, t)) :
    (attempt x : Effect σ ε' (Except ε α)) s = (.ok (.ok a), t) := by
  rw [attempt, h]

theorem attempt_of_err {e : ε} (h : x s = (.err e, t)) :
    (attempt x : Effect σ ε' (Except ε α)) s = (.ok (.error e), t) := by
  rw [attempt, h]

theorem bind_assoc {γ : Type} (x : Effect σ ε α) (f : α → Effect σ ε β) (g : β → Effect σ ε γ) :
    (x >>= f) >>= g = x >>= fun a => f a >>= g := by
  funext s
  cases hx : x s with
  | mk r t =>
    cases r with
    | ok a =>
      rw [bind_of_ok (f := fun a => f a >>= g) hx]
      change Effect.bind (x >>= f) g s = Effect.bind (f a) g t
      rw [Effect.bind, Effect.bind, bind_of_ok hx]
    | err e => rw [bind_of_err (bind_of_err hx), bind_of_err hx]
    | panic => rw [bind_of_panic (bind_of_panic hx), bind_of_panic hx]

/-- The first round of a loop, in front of the others and of what follows the loop. -/
theorem forM_cons_bind {γ : Type} (c : γ) (cs : List γ) (f : γ → Effect σ ε Unit)
    (k : Effect σ ε β) :
    ((c :: cs).forM f >>= fun _ => k) = f c >>= fun _ => (cs.forM f >>= fun _ => k) :=
  bind_assoc (f c) (fun _ => cs.forM f) (fun _ => k)

end Steps

/-! ## Postconditions -/

/-- `Q` holds of the outcome and the last state of `x` on `s`. -/
def Ensures (x : Effect σ ε α) (s : σ) (Q : Outcome ε α → σ → Prop) : Prop := Q (x s).1 (x s).2

namespace Ensures

variable {x : Effect σ ε α} {s : σ} {Q : Outcome ε α → σ → Prop}

theorem mono {Q' : Outcome ε α → σ → Prop} (h : x.Ensures s Q) (hQ : ∀ r t, Q r t → Q' r t) :
    x.Ensures s Q' :=
  hQ _ _ h

/-- A first step with a known end. -/
theorem of_ok {a : α} {t : σ} {f : α → Effect σ ε β} {Q : Outcome ε β → σ → Prop}
    (hx : x s = (.ok a, t)) (h : (f a).Ensures t Q) : (x >>= f).Ensures s Q := by
  unfold Ensures at h ⊢
  rwa [bind_of_ok hx]

/-- The rest runs only behind a value; an error or a panic goes on to the end. -/
theorem bind {f : α → Effect σ ε β} {Q' : Outcome ε β → σ → Prop} (h : x.Ensures s Q)
    (hok : ∀ a t, Q (.ok a) t → (f a).Ensures t Q') (herr : ∀ e t, Q (.err e) t → Q' (.err e) t)
    (hpanic : ∀ t, Q .panic t → Q' .panic t) : (x >>= f).Ensures s Q' := by
  unfold Ensures at h ⊢
  cases hx : x s with
  | mk r t =>
    rw [hx] at h
    cases r with
    | ok a =>
      rw [bind_of_ok hx]
      exact hok a t h
    | err e =>
      rw [bind_of_err hx]
      exact herr e t h
    | panic =>
      rw [bind_of_panic hx]
      exact hpanic t h

end Ensures

end Effect
