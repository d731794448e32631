import Trustm.Check.Usage
import Trustm.Session.Progress

/-!
# `trustm-check` on the shared state

The model of `trustm-check` runs every method as a whole. Below it stand the single accesses of
one thread to the statics, the objects and the library.

* `main_process`: each run of the program is a run of these accesses, with the same sequence of
  events: the calls with their instances and ends, without what the commands pass and bring back.
-/

namespace Trustm

open Run

/-- At rest with `OPEN` clear, every session is closed. -/
theorem OneThread.closed {s : Process} (hs : OneThread s) (hwf : Consistent s) (hrest : AtRest s)
    (hopen : s.OPEN = false) : ∀ p ∈ s.sessions, p = .closed := by
  intro p hp
  rcases Pc.live_or_closed (hrest p hp) with ⟨h, rfl⟩ | hclosed
  · have hset := (hs.openFlag hwf hrest).mpr ⟨h, hp⟩
    rw [hopen] at hset
    cases hset
  · exact hclosed

/-- **Every run of `trustm-check` shows the events of one thread on the shared state**, with no step
that uses or destroys a dead instance, and with nothing alive and nothing open at its end. -/
theorem main_process (chip : Chip) (args : List String) :
    ∃ as s, history as = some s ∧ Meets step Sequential init as ∧
      trace step processLabel init as = (main chip args .start).2.host.events ∧
      Meets step CleanStep init as ∧ (∀ p ∈ s.sessions, p = .closed) ∧ s.live = [] ∧
      s.OPEN = false := by
  obtain ⟨_, haccepted⟩ := main_closed chip args
  obtain ⟨s, ⟨as, hexec, hseq, htrace⟩, hrest, hopen⟩ := exists_shows (b := false) haccepted
  have hone := oneThread_of_sequential hseq
  have hwf := Consistent.of_history hexec
  have hclosed := (hone.last hexec).closed hwf hrest hopen
  refine ⟨as, s, hexec, hseq, htrace, ?_, hclosed, hwf.live_eq_nil hclosed, hopen⟩
  apply ((hone.and (Consistent.always as)).meets.and hseq).mono
  intro u a h
  obtain ⟨⟨⟨hthread, hconsistent⟩, t, ht, _⟩, ha⟩ := h
  exact hthread.cleanStep hconsistent ha ht

end Trustm
