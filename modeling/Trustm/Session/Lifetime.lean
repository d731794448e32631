import Trustm.Session.Attribution

/-!
# Pointers the library still holds

A call that returned 0 leaves its pointers with the library until the callback. The `SAFETY`
comments of the methods rest on `run`: it returns only after the callback, so the locals and
the borrowed slices outlive the command. The timeout exit does not wait for it.

* `Lifetime` says that every command the library works on belongs to a call in progress, and
  that its instance and its buffers are alive; `SafeDestroy`, that no instance with such a
  command is destroyed.
* `NoEarlyTimeout` is what the history must add: a `run` gives up only when its command has
  been completed in the meantime.
* `lifetime_iff_noEarlyTimeout`: with one handle at a time the two are the same.
-/

namespace Trustm

open Run Ownership

/-- Every uncompleted command was issued by a call that has not returned, and what it points
to is alive. -/
def Lifetime (s : Process) : Prop :=
  ∀ c ∈ s.pending, (∃ p ∈ s.sessions, p.command? = some c) ∧ ∀ x ∈ c.objs, x ∈ s.live

instance : DecidablePred Lifetime := fun s =>
  inferInstanceAs (Decidable (∀ c ∈ s.pending, _))

/-- No instance is destroyed that has an uncompleted command. -/
def SafeDestroy (s : Process) : Act → Prop
  | .op _ (.destroy x) => ∀ c ∈ s.pending, c.inst ≠ x
  | _ => True

instance (s : Process) : DecidablePred (SafeDestroy s) := fun a => by
  unfold SafeDestroy
  split <;> infer_instance

/-- A `run` takes its timeout exit only when its command is completed. -/
def NoEarlyTimeout (s : Process) : Act → Prop
  | .op i (.clock true) => ∀ c ∈ s.pending, (s.sessions[i]?.bind Pc.command?) ≠ some c
  | _ => True

instance (s : Process) : DecidablePred (NoEarlyTimeout s) := fun a => by
  unfold NoEarlyTimeout
  split <;> infer_instance

/-! ## Commands with a run that waits for them -/

/-- Every uncompleted command has its `run`, and while it is uncompleted there is nothing for
this `run` to read. -/
structure Attended (s : Process) : Prop where
  run : ∀ d ∈ s.pending, ∃ (i : Nat) (p : Pc), s.sessions[i]? = some p ∧ p.command? = some d
  call : ∀ (i : Nat) h k, s.sessions[i]? = some (Pc.running h k .call) → s.STATUS = busyStatus
  busy : ∀ (i : Nat) (p : Pc) c, s.sessions[i]? = some p → p.command? = some c →
    c ∈ s.pending → s.STATUS = busyStatus

namespace Attended

variable {s t : Process} {a : Act}

theorem start : Attended init where
  run := by simp [init]
  call := by simp [init]
  busy := by simp [init]

/-- With one handle, an uncompleted command belongs to the session with the handle. -/
theorem command_eq (hs : Attended s) (hone : OneHandle s) {d : Command} (hd : d ∈ s.pending)
    {j : Nat} {p : Pc} (hp : s.sessions[j]? = some p) (hhandle : p.hasHandle = true) :
    p.command? = some d := by
  obtain ⟨i, q, hq, hqd⟩ := hs.run d hd
  obtain rfl := hone.unique hq hp (Pc.hasHandle_of_command hqd) hhandle
  obtain rfl := Option.some.inj (hq.symm.trans hp)
  exact hqd

theorem run_step (hs : Attended s) (hearly : NoEarlyTimeout s a) (h : step s a = some t) :
    ∀ d ∈ t.pending, ∃ (i : Nat) (p : Pc), t.sessions[i]? = some p ∧ p.command? = some d := by
  intro d hd
  cases a with
  | openRefused =>
    obtain ⟨_, rfl⟩ := openRefused_step h
    exact hs.run d hd
  | openSwap bus addr =>
    obtain ⟨_, rfl⟩ := openSwap_step h
    obtain ⟨i, p, hp, hpd⟩ := hs.run d hd
    refine ⟨i, p, ?_, hpd⟩
    exact (List.getElem?_append_left (List.getElem?_eq_some_iff.mp hp).1).trans hp
  | callback c st =>
    obtain ⟨_, _, rfl⟩ := callback_step h
    exact hs.run d (List.mem_of_mem_erase hd)
  | op j o =>
    obtain ⟨p, q, freed, hop⟩ := opStep_of_step h
    rw [hop.pending] at hd
    rcases List.mem_append.mp hd with hissued | hd
    · obtain rfl := Op.eq_issue_of_mem hissued
      obtain ⟨hd, k, _, rfl⟩ := hop.edge.issue_inv
      exact ⟨j, _, hop.session, rfl⟩
    · obtain ⟨i, r, hr, hrd⟩ := hs.run d hd
      by_cases hij : j = i
      · subst hij
        obtain rfl := Option.some.inj (hr.symm.trans hop.before)
        rcases hop.edge.command_ends hrd with hq | ⟨st, rfl, hst⟩ | rfl
        · exact ⟨j, q, hop.session, hq⟩
        · -- the status word is `BUSY`
          exact absurd ((hop.load st rfl).trans (hs.busy j r d hr hrd hd)) hst
        · apply absurd _ (hearly d hd)
          rw [hr]
          exact hrd
      · exact ⟨i, r, (hop.other hij).trans hr, hrd⟩

theorem call_step (hs : Attended s) (hone : OneHandle s) (h : step s a = some t) {j : Nat}
    {hd : Handle} {k : Caller} (hq : t.sessions[j]? = some (.running hd k .call)) :
    t.STATUS = busyStatus := by
  rcases call_before h hq with rfl | hp
  · obtain ⟨p, q, freed, hop⟩ := opStep_of_step h
    rw [hop.STATUS, if_pos rfl]
  · have hSTATUS := hs.call j hd k hp
    cases a with
    | openRefused =>
      obtain ⟨_, rfl⟩ := openRefused_step h
      exact hSTATUS
    | openSwap bus addr =>
      obtain ⟨_, rfl⟩ := openSwap_step h
      exact hSTATUS
    | callback d st =>
      obtain ⟨hd, _⟩ := callback_step h
      cases hs.command_eq hone hd hp rfl
    | op i o =>
      obtain ⟨p, q, freed, hop⟩ := opStep_of_step h
      rw [hop.STATUS]
      split
      · rfl
      · exact hSTATUS

theorem busy_step (hs : Attended s) (hwf : Consistent s) (hone : OneHandle s)
    (h : step s a = some t) {j : Nat} {q : Pc} {c : Command} (hq : t.sessions[j]? = some q)
    (hc : q.command? = some c) (hpending : c ∈ t.pending) : t.STATUS = busyStatus := by
  rcases command_before h hq hc with rfl | ⟨p, hp, hpc⟩
  · obtain ⟨r, r', freed, hop⟩ := opStep_of_step h
    obtain ⟨hd, k, rfl, _⟩ := hop.edge.issue_inv
    rw [hop.STATUS]
    exact hs.call j hd k hop.before
  · cases a with
    | openRefused =>
      obtain ⟨_, rfl⟩ := openRefused_step h
      exact hs.busy j p c hp hpc hpending
    | openSwap bus addr =>
      obtain ⟨_, rfl⟩ := openSwap_step h
      exact hs.busy j p c hp hpc hpending
    | callback d st =>
      -- the only command outstanding is completed
      obtain ⟨hd, _, rfl⟩ := callback_step h
      have hpd := hs.command_eq hone hd hp (Pc.hasHandle_of_command hpc)
      obtain rfl : c = d := Option.some.inj (hpc.symm.trans hpd)
      exact absurd hpending (hwf.pendingNodup.of_map.not_mem_erase)
    | op i o =>
      obtain ⟨r, r', freed, hop⟩ := opStep_of_step h
      rw [hop.pending] at hpending
      rw [hop.STATUS]
      rcases List.mem_append.mp hpending with hissued | hpending
      · have hold := hwf.commandOld p (List.mem_of_getElem? hp) c hpc
        have hnew := hop.issuedFresh c hissued
        omega
      · split
        · rfl
        · exact hs.busy j p c hp hpc hpending

theorem step (hs : Attended s) (hwf : Consistent s) (hone : OneHandle s)
    (hearly : NoEarlyTimeout s a) (h : Trustm.step s a = some t) : Attended t :=
  ⟨hs.run_step hearly h, fun _ _ _ => hs.call_step hone h, fun _ _ _ => hs.busy_step hwf hone h⟩

/-- The uncompleted commands of attended states point to living objects. -/
theorem lifetime (hs : Attended s) (hwf : Consistent s) : Lifetime s := by
  intro c hc
  obtain ⟨i, p, hp, hpc⟩ := hs.run c hc
  have hmem := List.mem_of_getElem? hp
  refine ⟨⟨p, hmem, hpc⟩, ?_⟩
  intro x hx
  exact hwf.owned_mem_live hp (hwf.commandHeld p hmem c hpc x hx)

end Attended

/-! ## Histories -/

theorem attended_of_noEarlyTimeout {as : List Act} (hone : Always step OneHandle init as)
    (hearly : Meets step NoEarlyTimeout init as) : Always step Attended init as := by
  refine always_of_step ?_ Attended.start (((hone.and (Consistent.always as)).meets).and hearly)
  rintro s a t hs ⟨⟨⟨hone, hwf⟩, _⟩, hearly⟩ h
  exact hs.step hwf hone hearly h

theorem safeDestroy_of_lifetime {as : List Act} (h : Always step Lifetime init as) :
    Meets step SafeDestroy init as := by
  apply (h.and (Consistent.always as)).meets.mono
  rintro s a ⟨⟨_, hs⟩, t, ht, hlife, _⟩
  unfold SafeDestroy
  split
  · rename_i i x
    intro c hc hx
    obtain ⟨p, q, freed, hop⟩ := opStep_of_step ht
    have hmem : c ∈ t.pending := by
      rw [hop.pending]
      exact hc
    apply hs.not_mem_of_destroy hop
    rw [← hx]
    exact (hlife c hmem).2 _ List.mem_cons_self
  · trivial

/-- A `run` that gives up on an uncompleted command leaves it without a call. -/
theorem not_lifetime_of_earlyTimeout {s t : Process} (hone : OneHandle s) {i : Nat} {p : Pc}
    {c : Command} (hp : s.sessions[i]? = some p) (hpc : p.command? = some c)
    (hc : c ∈ s.pending) (h : step s (.op i (.clock true)) = some t) : ¬ Lifetime t := by
  intro hlife
  obtain ⟨p', q, freed, hop⟩ := opStep_of_step h
  obtain rfl := Option.some.inj (hp.symm.trans hop.before)
  have hmem : c ∈ t.pending := by
    rw [hop.pending]
    exact hc
  obtain ⟨⟨r, hr, hrc⟩, _⟩ := hlife c hmem
  obtain ⟨j, hj⟩ := List.mem_iff_getElem?.mp hr
  by_cases hij : i = j
  · subst hij
    obtain rfl := Option.some.inj (hop.session.symm.trans hj)
    obtain ⟨hd, k, rfl⟩ := hop.edge.timeout_return
    rw [Caller.return_command] at hrc
    cases hrc
  · rw [hop.other hij] at hj
    exact hij (hone.unique hp hj (Pc.hasHandle_of_command hpc) (Pc.hasHandle_of_command hrc))

/-- **The pointers stay valid, exactly when no command is given up on.** -/
theorem lifetime_iff_noEarlyTimeout {as : List Act} (hone : Always step OneHandle init as) :
    Always step Lifetime init as ∧ Meets step SafeDestroy init as ↔
      Meets step NoEarlyTimeout init as := by
  constructor
  · rintro ⟨hlife, _⟩
    apply (hlife.and hone).meets.mono
    rintro s a ⟨⟨_, hone⟩, t, ht, hlife, _⟩
    unfold NoEarlyTimeout
    split
    · intro c hc hcommand
      obtain ⟨p, hp, hpc⟩ := Option.bind_eq_some_iff.mp hcommand
      exact not_lifetime_of_earlyTimeout hone hp hpc hc ht hlife
    · trivial
  · intro hearly
    have hattended := attended_of_noEarlyTimeout hone hearly
    have hlife := (hattended.and (Consistent.always as)).mono fun _ h => h.1.lifetime h.2
    exact ⟨hlife, safeDestroy_of_lifetime hlife⟩

/-- Where no command is given up on, every `run` starts quietly. -/
theorem quietStart_of_noEarlyTimeout {as : List Act} (hone : Always step OneHandle init as)
    (hearly : Meets step NoEarlyTimeout init as) : Meets step QuietStart init as := by
  apply (hone.and (attended_of_noEarlyTimeout hone hearly)).meets.mono
  rintro s a ⟨⟨hone, hs⟩, t, ht, _⟩
  unfold QuietStart
  split
  · obtain ⟨p, q, freed, hop⟩ := opStep_of_step ht
    obtain ⟨hd, k, rfl, _⟩ := hop.edge.storeBusy_inv
    by_contra hne
    obtain ⟨d, hd⟩ := List.exists_mem_of_ne_nil _ hne
    cases hs.command_eq hone hd hop.before rfl
  · trivial

/-! ## A read that is given up on -/

/-- The read times out, and the handle is dropped while the chip still works on it. -/
def abandonedRead : List Act :=
  openedDefault ++ enterAndCall readCommand ++
    [.op 0 (.load busyStatus), .op 0 (.clock true), .op 0 .enterDrop,
      .op 0 (.destroy ⟨.crypt, 2⟩), .op 0 (.destroy ⟨.util, 1⟩)]

/-- The library holds the freed buffers, and then its instance is destroyed as well. -/
theorem not_lifetime_abandonedRead :
    (history abandonedRead).map (fun s => (s.pending, s.live)) =
        some ([readCommand], [.cstring 0]) ∧
      Meets step NoStaleRelease init abandonedRead ∧
      ¬ Always step Lifetime init abandonedRead ∧ ¬ Meets step SafeDestroy init abandonedRead := by
  decide

theorem lifetime_iff_noEarlyTimeout_verify :
    Always step Lifetime init readThenVerify ∧ Meets step SafeDestroy init readThenVerify :=
  (lifetime_iff_noEarlyTimeout (oneHandle_of_noStaleRelease (by decide))).mpr (by decide)

end Trustm
