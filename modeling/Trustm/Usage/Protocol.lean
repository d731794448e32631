import Trustm.Methods.Library
import Trustm.Support.Simulation

/-!
# How a client uses the library

The order of the library calls that a client of `Trustm` makes, without the handles, the atomics
and the data. It says what the component is for: one client at a time configures the bus, creates
the two instances, opens the application, issues commands, and destroys both instances in the
opposite order, on every way out.

* `Event` is one call of the library: its kind, which instance it is for, and how it ended. What a
  command passes and brings back, and which of the created instances is meant, are left out.
* `Stage.step` is the automaton of the allowed orders.
* `Call` lists what a single call of the API does to the library, from one stage at rest to
  another (`calls_iff`).
-/

namespace Trustm

open Run

/-! ## Events -/

/-- What a command is issued for. -/
inductive Purpose where
  | openApplication
  | method (w : Which)
  | closeApplication
  deriving DecidableEq, Repr

inductive Event where
  | configure (bus : List UInt8) (addr : UInt8)
  | create (w : Which) (null : Bool)
  | command (k : Purpose) (c : Completion)
  | destroy (w : Which)
  deriving DecidableEq

/-! ## Stages -/

inductive Stage where
  | idle
  | configured
  /-- The first instance exists. -/
  | half
  /-- Both exist, the application is not open. -/
  | built
  | opened
  /-- The application is closed or was never opened. -/
  | leaving
  /-- Only the first instance is left. -/
  | last
  deriving DecidableEq, Repr

/-- No call of the API is in progress. -/
def Stage.atRest : Stage → Bool
  | .idle | .opened => true
  | _ => false

def Stage.step : Stage → Event → Option Stage
  | .idle, .configure bus _ => if 0 ∈ bus then none else some .configured
  | .configured, .create .util true => some .idle
  | .configured, .create .util false => some .half
  | .half, .create .crypt true => some .last
  | .half, .create .crypt false => some .built
  | .built, .command .openApplication c =>
    if c.result = .ok () then some .opened else some .leaving
  | .opened, .command (.method _) _ => some .opened
  | .opened, .command .closeApplication _ => some .leaving
  | .opened, .destroy .crypt => some .last
  | .leaving, .destroy .crypt => some .last
  | .last, .destroy .util => some .idle
  | _, _ => none

section

variable {u v : Stage} {e : Event}

theorem idle_step (h : Stage.step .idle e = some v) :
    ∃ bus addr, e = .configure bus addr ∧ 0 ∉ bus ∧ v = .configured := by
  cases e with
  | configure bus addr =>
    simp only [Stage.step, Option.ite_none_left_eq_some, Option.some.injEq] at h
    exact ⟨bus, addr, rfl, h.1, h.2.symm⟩
  | _ => cases h

theorem configured_step (h : Stage.step .configured e = some v) :
    e = .create .util true ∧ v = .idle ∨ e = .create .util false ∧ v = .half := by
  cases e with
  | create w null =>
    cases w <;> cases null <;> cases h
    · exact Or.inr ⟨rfl, rfl⟩
    · exact Or.inl ⟨rfl, rfl⟩
  | _ => cases h

theorem half_step (h : Stage.step .half e = some v) :
    e = .create .crypt true ∧ v = .last ∨ e = .create .crypt false ∧ v = .built := by
  cases e with
  | create w null =>
    cases w <;> cases null <;> cases h
    · exact Or.inr ⟨rfl, rfl⟩
    · exact Or.inl ⟨rfl, rfl⟩
  | _ => cases h

theorem built_step (h : Stage.step .built e = some v) :
    ∃ c, e = .command .openApplication c ∧
      (c.result = .ok () ∧ v = .opened ∨ c.result ≠ .ok () ∧ v = .leaving) := by
  cases e with
  | command k c =>
    cases k with
    | openApplication =>
      refine ⟨c, rfl, ?_⟩
      by_cases hc : c.result = .ok ()
      · rw [Stage.step, if_pos hc] at h
        exact Or.inl ⟨hc, (Option.some.inj h).symm⟩
      · rw [Stage.step, if_neg hc] at h
        exact Or.inr ⟨hc, (Option.some.inj h).symm⟩
    | _ => cases h
  | _ => cases h

theorem opened_step (h : Stage.step .opened e = some v) :
    (∃ w c, e = .command (.method w) c ∧ v = .opened) ∨
      (∃ c, e = .command .closeApplication c ∧ v = .leaving) ∨
      e = .destroy .crypt ∧ v = .last := by
  cases e with
  | command k c =>
    cases k with
    | method w =>
      cases h
      exact Or.inl ⟨w, c, rfl, rfl⟩
    | closeApplication =>
      cases h
      exact Or.inr (Or.inl ⟨c, rfl, rfl⟩)
    | openApplication => cases h
  | destroy w =>
    cases w <;> cases h
    exact Or.inr (Or.inr ⟨rfl, rfl⟩)
  | _ => cases h

theorem leaving_step (h : Stage.step .leaving e = some v) : e = .destroy .crypt ∧ v = .last := by
  cases e with
  | destroy w =>
    cases w <;> cases h
    exact ⟨rfl, rfl⟩
  | _ => cases h

theorem last_step (h : Stage.step .last e = some v) : e = .destroy .util ∧ v = .idle := by
  cases e with
  | destroy w =>
    cases w <;> cases h
    exact ⟨rfl, rfl⟩
  | _ => cases h

end

/-! ## Calls of the API -/

/-- What one call of the API does to the library: the three ways in which `open` fails behind
`configure`, its success, a method, `close` and the drop of a handle. -/
inductive Call : Stage → List Event → Stage → Prop
  | utilNull {bus addr} (hbus : 0 ∉ bus) :
      Call .idle [.configure bus addr, .create .util true] .idle
  | cryptNull {bus addr} (hbus : 0 ∉ bus) :
      Call .idle [.configure bus addr, .create .util false, .create .crypt true, .destroy .util]
        .idle
  | openFails {bus addr c} (hbus : 0 ∉ bus) (hc : c.result ≠ .ok ()) :
      Call .idle [.configure bus addr, .create .util false, .create .crypt false,
        .command .openApplication c, .destroy .crypt, .destroy .util] .idle
  | opens {bus addr c} (hbus : 0 ∉ bus) (hc : c.result = .ok ()) :
      Call .idle [.configure bus addr, .create .util false, .create .crypt false,
        .command .openApplication c] .opened
  | method (w c) : Call .opened [.command (.method w) c] .opened
  | close (c) :
      Call .opened [.command .closeApplication c, .destroy .crypt, .destroy .util] .idle
  | drop : Call .opened [.destroy .crypt, .destroy .util] .idle

/-- Calls one after the other. -/
inductive Calls : Stage → List Event → Stage → Prop
  | nil {s} : Calls s [] s
  | cons {s u t es fs} (h : Call s es u) (rest : Calls u fs t) : Calls s (es ++ fs) t

section

variable {s t u : Stage} {es fs : List Event}

theorem Call.exec (h : Call s es t) : exec Stage.step s es = some t := by
  cases h <;> simp [Run.exec, Stage.step, *]

theorem Call.atRest (h : Call s es t) : t.atRest = true := by
  cases h <;> rfl

theorem Calls.exec (h : Calls s es t) : Run.exec Stage.step s es = some t := by
  induction h with
  | nil => rfl
  | cons hcall _ ih => exact exec_append_iff.mpr ⟨_, hcall.exec, ih⟩

theorem Calls.append (h : Calls s es t) (h' : Calls t fs u) : Calls s (es ++ fs) u := by
  induction h with
  | nil => exact h'
  | cons hcall _ ih =>
    rw [List.append_assoc]
    exact .cons hcall (ih h')

theorem Calls.snoc (h : Calls s es t) (h' : Call t fs u) : Calls s (es ++ fs) u := by
  have hone := h.append (.cons h' .nil)
  rwa [List.append_nil] at hone

/-- A call in progress goes on until it is at rest. -/
theorem exists_event (hs : s.atRest = false) (ht : t.atRest = true)
    (h : Run.exec Stage.step s es = some t) :
    ∃ e fs u, es = e :: fs ∧ Stage.step s e = some u ∧ Run.exec Stage.step u fs = some t := by
  cases es with
  | nil =>
    cases h
    rw [ht] at hs
    cases hs
  | cons e fs =>
    obtain ⟨u, hu, hfs⟩ := exec_cons_iff.mp h
    exact ⟨e, fs, u, rfl, hu, hfs⟩

section Exits

variable (ht : t.atRest = true)

include ht

theorem exec_last (h : Run.exec Stage.step .last es = some t) :
    ∃ fs, es = .destroy .util :: fs ∧ Run.exec Stage.step .idle fs = some t := by
  obtain ⟨e, fs, u, rfl, he, hfs⟩ := exists_event rfl ht h
  obtain ⟨rfl, rfl⟩ := last_step he
  exact ⟨fs, rfl, hfs⟩

theorem exec_leaving (h : Run.exec Stage.step .leaving es = some t) :
    ∃ fs, es = .destroy .crypt :: .destroy .util :: fs ∧
      Run.exec Stage.step .idle fs = some t := by
  obtain ⟨e, fs, u, rfl, he, hfs⟩ := exists_event rfl ht h
  obtain ⟨rfl, rfl⟩ := leaving_step he
  obtain ⟨gs, rfl, hgs⟩ := exec_last ht hfs
  exact ⟨gs, rfl, hgs⟩

/-- The application opens, or the instances go. -/
theorem exec_built (h : Run.exec Stage.step .built es = some t) :
    ∃ c fs, c.result = .ok () ∧ es = .command .openApplication c :: fs ∧
        Run.exec Stage.step .opened fs = some t ∨
      c.result ≠ .ok () ∧
        es = .command .openApplication c :: .destroy .crypt :: .destroy .util :: fs ∧
        Run.exec Stage.step .idle fs = some t := by
  obtain ⟨e, fs, u, rfl, he, hfs⟩ := exists_event rfl ht h
  obtain ⟨c, rfl, ⟨hc, rfl⟩ | ⟨hc, rfl⟩⟩ := built_step he
  · exact ⟨c, fs, Or.inl ⟨hc, rfl, hfs⟩⟩
  · obtain ⟨gs, rfl, hgs⟩ := exec_leaving ht hfs
    exact ⟨c, gs, Or.inr ⟨hc, rfl, hgs⟩⟩

/-- The first call of an accepted order, and the rest. -/
theorem exists_call (hs : s.atRest = true) (hne : es ≠ [])
    (h : Run.exec Stage.step s es = some t) :
    ∃ first rest u, es = first ++ rest ∧ first ≠ [] ∧ Call s first u ∧
      Run.exec Stage.step u rest = some t := by
  obtain ⟨e, fs, rfl⟩ := List.exists_cons_of_ne_nil hne
  obtain ⟨u, hu, hfs⟩ := exec_cons_iff.mp h
  cases s with
  | idle =>
    obtain ⟨bus, addr, rfl, hbus, rfl⟩ := idle_step hu
    obtain ⟨e, gs, u, rfl, he, hgs⟩ := exists_event rfl ht hfs
    rcases configured_step he with ⟨rfl, rfl⟩ | ⟨rfl, rfl⟩
    · exact ⟨[_, _], gs, _, rfl, by simp, .utilNull hbus, hgs⟩
    · obtain ⟨e, gs', u, rfl, he, hgs'⟩ := exists_event rfl ht hgs
      rcases half_step he with ⟨rfl, rfl⟩ | ⟨rfl, rfl⟩
      · obtain ⟨rest, rfl, hrest⟩ := exec_last ht hgs'
        exact ⟨[_, _, _, _], rest, _, rfl, by simp, .cryptNull hbus, hrest⟩
      · obtain ⟨c, rest, ⟨hc, rfl, hrest⟩ | ⟨hc, rfl, hrest⟩⟩ := exec_built ht hgs'
        · exact ⟨[_, _, _, _], rest, _, rfl, by simp, .opens hbus hc, hrest⟩
        · exact ⟨[_, _, _, _, _, _], rest, _, rfl, by simp, .openFails hbus hc, hrest⟩
  | opened =>
    rcases opened_step hu with ⟨w, c, rfl, rfl⟩ | ⟨c, rfl, rfl⟩ | ⟨rfl, rfl⟩
    · exact ⟨[_], fs, _, rfl, by simp, .method w c, hfs⟩
    · obtain ⟨rest, rfl, hrest⟩ := exec_leaving ht hfs
      exact ⟨[_, _, _], rest, _, rfl, by simp, .close c, hrest⟩
    · obtain ⟨rest, rfl, hrest⟩ := exec_last ht hfs
      exact ⟨[_, _], rest, _, rfl, by simp, .drop, hrest⟩
  | _ => cases hs

/-- From rest to rest, the allowed orders are the sequences of calls. -/
theorem calls_iff (hs : s.atRest = true) : Calls s es t ↔ Run.exec Stage.step s es = some t := by
  constructor
  · exact Calls.exec
  · intro h
    induction hn : es.length using Nat.strongRecOn generalizing s es with
    | ind n ih =>
      by_cases hne : es = []
      · subst hne
        cases h
        exact .nil
      · obtain ⟨first, rest, u, rfl, hfirst, hcall, hrest⟩ := exists_call ht hs hne h
        have hpos := List.length_pos_iff.mpr hfirst
        rw [List.length_append] at hn
        exact .cons hcall (ih rest.length (by omega) hcall.atRest hrest rfl)

end Exits

end

end Trustm
