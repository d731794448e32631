import Trustm.Session.Invariant

/-!
# One handle per process

`open` guards itself with `OPEN.swap(true)`, and the flag is released in two places: by `Drop`
and by the error arm of `open`. After a failed `open_application` both of them run, first the
`Drop` inside `open_inner` and then the error arm of its caller. A thread that opens between
the two loses its flag to the second release.

* `SingleSession` is the invariant the guard is there for.
* `NoStaleRelease` is what the interleaving must add: a second release by the same `open`
  finds `OPEN` clear.
* `singleSession_iff_noStaleRelease`: in every history, the one holds in all states if and
  only if the other holds of all steps.
-/

namespace Trustm

open Run

/-- At most one session is active, and `OPEN` is set while one is. -/
def SingleSession (s : Process) : Prop :=
  s.sessions.countP Pc.active ≤ 1 ∧ (0 < s.sessions.countP Pc.active → s.OPEN = true)

instance : DecidablePred SingleSession := fun _ =>
  inferInstanceAs (Decidable (_ ∧ _))

/-- An error arm that stores `false` after the `Drop` of the same session already did finds
`OPEN` still clear. -/
def NoStaleRelease (s : Process) : Act → Prop
  | .op i .storeOpen => s.sessions[i]? = some (.errArm true) → s.OPEN = false
  | _ => True

instance (s : Process) : DecidablePred (NoStaleRelease s) := fun a => by
  unfold NoStaleRelease
  split <;> infer_instance

/-! ## The invariant under the condition -/

namespace SingleSession

variable {s t : Process}

theorem start : SingleSession init := ⟨Nat.zero_le _, fun h => absurd h (Nat.lt_irrefl 0)⟩

/-- With `OPEN` clear nobody is active. -/
theorem idle (hs : SingleSession s) (hopen : s.OPEN = false) :
    s.sessions.countP Pc.active = 0 := by
  by_contra hne
  have := hs.2 (Nat.pos_of_ne_zero hne)
  rw [hopen] at this
  cases this

theorem unique (hs : SingleSession s) {i j : Nat} {p q : Pc} (hi : s.sessions[i]? = some p)
    (hj : s.sessions[j]? = some q) (hp : p.active = true) (hq : q.active = true) : i = j :=
  Ownership.index_unique hs.1 hi hj hp hq

/-- A release ends the only active session, or comes when nobody is active. -/
theorem release (hs : SingleSession s) {i : Nat} {p q : Pc} {freed : List Obj}
    (h : OpStep s i .storeOpen t p q freed) (hstale : p = .errArm true → s.OPEN = false) :
    t.sessions.countP Pc.active = 0 := by
  have hcount := h.countP Pc.active
  obtain ⟨hq, hp | rfl⟩ := h.edge.release
  · have hone := hs.1
    simp only [hp, hq, if_true, Bool.false_eq_true, if_false] at hcount
    omega
  · have hidle := hs.idle (hstale rfl)
    simp only [Pc.active_errArm_true, hq, Bool.false_eq_true, if_false] at hcount
    omega

theorem step (hs : SingleSession s) {a : Act} (ha : NoStaleRelease s a)
    (h : Trustm.step s a = some t) : SingleSession t := by
  cases a with
  | openRefused =>
    obtain ⟨_, rfl⟩ := openRefused_step h
    exact hs
  | openSwap bus addr =>
    obtain ⟨hopen, rfl⟩ := openSwap_step h
    refine ⟨?_, fun _ => rfl⟩
    rw [List.countP_append, hs.idle hopen]
    exact Nat.le_of_eq rfl
  | op i o =>
    obtain ⟨p, q, freed, h⟩ := opStep_of_step h
    by_cases ho : o = .storeOpen
    · subst ho
      have hnone := hs.release h fun hp => ha (hp ▸ h.before)
      exact ⟨by omega, fun hpos => absurd hpos (by omega)⟩
    · have hcount := h.countP Pc.active
      rw [h.edge.active_eq ho, Nat.add_right_cancel_iff] at hcount
      refine ⟨hcount ▸ hs.1, fun hpos => ?_⟩
      rw [h.OPEN, if_neg ho]
      exact hs.2 (hcount ▸ hpos)
  | callback c st =>
    obtain ⟨_, _, rfl⟩ := callback_step h
    exact hs

/-- Histories without a stale release have one session at a time. -/
theorem of_noStaleRelease {as : List Act} (h : Meets Trustm.step NoStaleRelease init as) :
    Always Trustm.step SingleSession init as :=
  always_of_step (fun _ _ _ hs ha h => hs.step ha h) start h

end SingleSession

/-! ## Live handles -/

/-- At most one session has a live handle. -/
def OneHandle (s : Process) : Prop := s.sessions.countP Pc.hasHandle ≤ 1

instance : DecidablePred OneHandle := fun _ => inferInstanceAs (Decidable (_ ≤ _))

theorem Pc.active_of_hasHandle {p : Pc} (h : p.hasHandle = true) : p.active = true := by
  cases p with
  | running => rfl
  | live => rfl
  | _ => cases h

theorem SingleSession.oneHandle {s : Process} (hs : SingleSession s) : OneHandle s :=
  (List.countP_mono_left fun _ _ => Pc.active_of_hasHandle).trans hs.1

theorem oneHandle_of_noStaleRelease {as : List Act} (h : Meets step NoStaleRelease init as) :
    Always step OneHandle init as :=
  (SingleSession.of_noStaleRelease h).mono fun _ => SingleSession.oneHandle

theorem OneHandle.unique {s : Process} (hs : OneHandle s) {i j : Nat} {p q : Pc}
    (hi : s.sessions[i]? = some p) (hj : s.sessions[j]? = some q)
    (hp : p.hasHandle = true) (hq : q.hasHandle = true) : i = j :=
  Ownership.index_unique hs hi hj hp hq

/-- Only the creation of an instance can break `OneHandle`. -/
theorem OneHandle.step {s t : Process} {a : Act} (hs : OneHandle s)
    (ha : ∀ i w n, a ≠ .op i (.create w n)) (h : Trustm.step s a = some t) : OneHandle t := by
  cases a with
  | openRefused =>
    obtain ⟨_, rfl⟩ := openRefused_step h
    exact hs
  | openSwap bus addr =>
    obtain ⟨_, rfl⟩ := openSwap_step h
    unfold OneHandle
    rw [List.countP_append]
    exact hs
  | op i o =>
    obtain ⟨p, q, freed, hop⟩ := opStep_of_step h
    have hcount := hop.countP Pc.hasHandle
    unfold OneHandle at hs ⊢
    by_cases hq : q.hasHandle = true
    · rcases hop.edge.handle hq with hp | ⟨_, _, n, _, rfl⟩
      · rw [if_pos hq, if_pos hp] at hcount
        omega
      · exact absurd rfl (ha i .crypt (some n))
    · rw [if_neg hq] at hcount
      omega
  | callback c st =>
    obtain ⟨_, _, rfl⟩ := callback_step h
    exact hs

/-! ## The condition is needed -/

/-- A stale release strands the session that has opened in between. -/
theorem not_singleSession_of_staleRelease {s t : Process} (hs : Consistent s) {i : Nat}
    (hi : s.sessions[i]? = some (.errArm true)) (hopen : s.OPEN = true)
    (h : step s (.op i .storeOpen) = some t) : ¬ SingleSession t := by
  intro ht
  obtain ⟨p, q, freed, h⟩ := opStep_of_step h
  obtain rfl : Pc.errArm true = p := Option.some.inj (hi.symm.trans h.before)
  have hpos := List.countP_pos_iff.mpr (hs.openActive hopen)
  have hcount := h.countP Pc.active
  simp only [Pc.active_errArm_true, h.edge.release.1, Bool.false_eq_true, if_false] at hcount
  have hset : t.OPEN = true := ht.2 (by omega)
  rw [h.OPEN, if_pos rfl] at hset
  cases hset

/-- **One session at a time, exactly when no release is stale.** -/
theorem singleSession_iff_noStaleRelease (as : List Act) :
    Always step SingleSession init as ↔ Meets step NoStaleRelease init as := by
  constructor
  · intro hsingle
    apply (hsingle.and (Consistent.always as)).meets.mono
    rintro s a ⟨⟨_, hs⟩, t, ht, hsingle, _⟩
    unfold NoStaleRelease
    split
    · intro hi
      by_contra hopen
      exact not_singleSession_of_staleRelease hs hi ((Bool.not_eq_false _).mp hopen) ht hsingle
    · trivial
  · exact SingleSession.of_noStaleRelease

/-! ## A history with two sessions -/

/-- `open` of session `i` up to the `run` of its `open_application`; the instances get the
numbers after that of the string. -/
def openBus (i : Nat) (bus : CString) : List Act :=
  [.openSwap bus.bytes DEFAULT_ADDR, .op i (.cstringNew (some bus)),
    .op i (.configure bus DEFAULT_ADDR),
    .op i (.create .util (some (bus.number + 1))),
    .op i (.create .crypt (some (bus.number + 2)))]

/-- `open_default` up to there. -/
def openDefault (i n : Nat) : List Act := openBus i ⟨n, DEFAULT_BUS, by decide⟩

/-- Session 0's `open_application` is rejected; another thread opens between the `Drop` of
session 0 and its error arm, and a third one after it. -/
def overlappingOpens : List Act :=
  openDefault 0 0 ++
    [.op 0 .storeBusy, .op 0 (.reject ⟨.util, 1⟩ 0x0102),
      .op 0 (.destroy ⟨.crypt, 2⟩), .op 0 (.destroy ⟨.util, 1⟩), .op 0 .storeOpen,
      .openSwap DEFAULT_BUS DEFAULT_ADDR, .op 0 .freeBus, .op 0 .storeOpen,
      .openSwap DEFAULT_BUS DEFAULT_ADDR]

/-- The second session is active with `OPEN` clear, and then two sessions are active. -/
theorem not_singleSession_overlappingOpens :
    (history overlappingOpens.dropLast).map
        (fun s => (s.sessions.countP Pc.active, s.OPEN)) = some (1, false) ∧
      (history overlappingOpens).map (fun s => s.sessions.countP Pc.active) = some 2 ∧
      ¬ Always step SingleSession init overlappingOpens := by
  decide

end Trustm
