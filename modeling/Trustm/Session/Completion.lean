import Trustm.Session.OpenFlag

/-!
# No completion is lost

`run` stores `BUSY` *before* it makes the call, so a callback that comes while the call is
still on its way finds the status word already reset. From the store on, only a callback
changes the word, and no callback delivers `BUSY`: a poll after a callback leaves the loop.

* `Readable` is the invariant about the command a `run` has issued: once it is completed, the
  word is not `BUSY`. It is kept because the command is issued behind the store.
* `LastRun` describes a history with the last `run` of a session in it.
* `LastRun.status_ne_busy`: behind any callback of such a run the word is not `BUSY`.
* `completion_not_lost`: a poll behind the callback of its own command returns the status, and
  a `Timeout` has seen no callback at all before its last poll.
-/

namespace Trustm

open Run

/-- The history `pre`, the store of `BUSY` by session `i`, then `mid`, in which the session
starts no other `run`; at most one handle is live at a time. -/
structure LastRun (i : Nat) (pre mid : List Act) (s : Process) : Prop where
  reached : history (pre ++ .op i .storeBusy :: mid) = some s
  oneHandle : Always step OneHandle init (pre ++ .op i .storeBusy :: mid)
  last : .op i .storeBusy ∉ mid

/-- What session `i`'s `run` returns in the state `s` by the access `o`. -/
def runResult (s : Process) (i : Nat) (o : Op) : Option (Result Unit) :=
  s.sessions[i]?.bind fun p => p.runResult o

/-! ## The run's own command -/

/-- A `run` whose command is completed finds a status to return. -/
def Readable (s : Process) : Prop :=
  ∀ (i : Nat) (p : Pc) c, s.sessions[i]? = some p → p.command? = some c → c ∉ s.pending →
    s.STATUS ≠ busyStatus

theorem Readable.start : Readable init := by
  simp [Readable, init]

theorem Readable.step {s t : Process} {a : Act} (hs : Readable s) (hone : OneHandle s)
    (h : Trustm.step s a = some t) : Readable t := by
  intro i q c hq hc hdone
  rcases command_before h hq hc with rfl | ⟨p, hp, hpc⟩
  · -- a command just issued is not completed
    obtain ⟨r, r', freed, hop⟩ := opStep_of_step h
    rw [hop.pending] at hdone
    exact absurd (List.mem_append_left _ List.mem_cons_self) hdone
  · cases a with
    | openRefused =>
      obtain ⟨_, rfl⟩ := openRefused_step h
      exact hs i p c hp hpc hdone
    | openSwap bus addr =>
      obtain ⟨_, rfl⟩ := openSwap_step h
      exact hs i p c hp hpc hdone
    | callback d st =>
      obtain ⟨_, hst, rfl⟩ := callback_step h
      exact hst
    | op j o =>
      obtain ⟨r, r', freed, hop⟩ := opStep_of_step h
      have hdone' : c ∉ s.pending := by
        intro hmem
        rw [hop.pending] at hdone
        exact hdone (List.mem_append_right _ hmem)
      rw [hop.STATUS]
      split
      case isTrue ho =>
        -- only the session with the handle stores `BUSY`, and it has no command there
        subst ho
        obtain ⟨hd, k, rfl, _⟩ := hop.edge.storeBusy_inv
        have hij := hone.unique hop.before hp rfl (Pc.hasHandle_of_command hpc)
        subst hij
        obtain rfl := Option.some.inj (hop.before.symm.trans hp)
        cases hpc
      case isFalse => exact hs i p c hp hpc hdone'

theorem Readable.of_history {as : List Act} {s : Process} (h : history as = some s)
    (hone : Always Trustm.step OneHandle init as) : Readable s := by
  have hmeets := hone.meets.mono fun _ _ h => h.1
  exact (always_of_step (fun _ _ _ hs hone h => hs.step hone h) Readable.start hmeets).last h

/-- The number of a completed command is never given out again. -/
def Completed (c : Command) (s : Process) : Prop :=
  c.number < s.fresh ∧ c ∉ s.pending

theorem Completed.step {s t : Process} {a : Act} {c : Command} (hs : Completed c s)
    (h : Trustm.step s a = some t) : Completed c t := by
  obtain ⟨hold, hdone⟩ := hs
  cases a with
  | openRefused =>
    obtain ⟨_, rfl⟩ := openRefused_step h
    exact ⟨hold, hdone⟩
  | openSwap bus addr =>
    obtain ⟨_, rfl⟩ := openSwap_step h
    exact ⟨hold, hdone⟩
  | callback d st =>
    obtain ⟨_, _, rfl⟩ := callback_step h
    exact ⟨hold, fun hmem => hdone (List.mem_of_mem_erase hmem)⟩
  | op j o =>
    obtain ⟨p, q, freed, hop⟩ := opStep_of_step h
    refine ⟨hold.trans_le hop.fresh_le, fun hmem => ?_⟩
    rw [hop.pending] at hmem
    rcases List.mem_append.mp hmem with hissued | hmem
    · have hnew := hop.issuedFresh c hissued
      omega
    · exact hdone hmem

theorem completed_of_callback {s t : Process} {c : Command} {code : UInt16} (hs : Consistent s)
    (h : step s (.callback c code) = some t) : Completed c t := by
  obtain ⟨hmem, _, rfl⟩ := callback_step h
  exact ⟨hs.pendingOld c hmem, hs.pendingNodup.of_map.not_mem_erase⟩

/-- What has been called back is completed for good. -/
theorem completed_of_mem {as : List Act} {s : Process} (h : history as = some s) {c : Command}
    {code : UInt16} (hcb : .callback c code ∈ as) : Completed c s := by
  obtain ⟨before, after, rfl⟩ := List.append_of_mem hcb
  obtain ⟨u, hu, hexec⟩ := exec_append_iff.mp h
  obtain ⟨v, hv, hexec⟩ := exec_cons_iff.mp hexec
  have hdone := completed_of_callback (Consistent.of_history hu) hv
  exact invariant (fun _ _ _ hs h => hs.step h) hdone hexec

/-! ## Steps during a run -/

section

variable {s t : Process} {i : Nat} {a : Act} {q : Pc}

/-- A session behind its store of `BUSY` was so before a step that is not this store. -/
theorem midRun_before (h : step s a = some t) (ha : a ≠ .op i .storeBusy)
    (hq : t.sessions[i]? = some q) (hmid : q.midRun = true) :
    ∃ p, s.sessions[i]? = some p ∧ p.midRun = true := by
  rcases session_before h hq with hq | ⟨bus, addr, rfl⟩ | ⟨o, p, freed, rfl, hop⟩
  · exact ⟨q, hq, hmid⟩
  · cases hmid
  · refine ⟨p, hop.before, hop.edge.midRun ?_ hmid⟩
    rintro rfl
    exact ha rfl

/-- While session `i` is in a run, a step leaves the status word alone or is a callback. -/
theorem status_during_run (h : step s a = some t) (hone : OneHandle s)
    (ha : a ≠ .op i .storeBusy) {p : Pc} (hp : s.sessions[i]? = some p)
    (hmid : p.midRun = true) :
    t.STATUS = s.STATUS ∨ t.STATUS ≠ busyStatus := by
  cases a with
  | openRefused =>
    obtain ⟨_, rfl⟩ := openRefused_step h
    exact .inl rfl
  | openSwap bus addr =>
    obtain ⟨_, rfl⟩ := openSwap_step h
    exact .inl rfl
  | op j o =>
    obtain ⟨r, q, freed, h⟩ := opStep_of_step h
    by_cases ho : o = .storeBusy
    · -- another session would store `BUSY` with a live handle of its own
      subst ho
      obtain ⟨h', k, rfl, _⟩ := h.edge.storeBusy_inv
      have hij := hone.unique h.before hp rfl (Pc.hasHandle_of_midRun hmid)
      subst hij
      exact absurd rfl ha
    · rw [h.STATUS, if_neg ho]
      exact .inl rfl
  | callback c st =>
    obtain ⟨_, hst, rfl⟩ := callback_step h
    exact .inr hst

end

/-! ## The run as a whole -/

theorem callback_status {s t : Process} {c : Command} {st : UInt16}
    (h : step s (.callback c st) = some t) : t.STATUS ≠ busyStatus := by
  obtain ⟨_, hst, rfl⟩ := callback_step h
  exact hst

/-- A session that has left its run does not come back without a store of `BUSY`. -/
theorem midRun_of_exec {s t : Process} {i : Nat} {as : List Act} (h : exec step s as = some t)
    (has : .op i .storeBusy ∉ as) {q : Pc} (hq : t.sessions[i]? = some q)
    (hmid : q.midRun = true) : ∃ p, s.sessions[i]? = some p ∧ p.midRun = true := by
  induction as generalizing s with
  | nil =>
    cases h
    exact ⟨q, hq, hmid⟩
  | cons a as ih =>
    obtain ⟨u, hu, h⟩ := exec_cons_iff.mp h
    obtain ⟨p, hp, hpmid⟩ := ih h fun hmem => has (List.mem_cons_of_mem _ hmem)
    exact midRun_before hu (fun ha => has (ha ▸ List.mem_cons_self)) hp hpmid

/-- Once a callback has come, the status word stays off `BUSY` to the end of the run. -/
theorem status_of_callback {s t : Process} {i : Nat} {as : List Act}
    (h : exec step s as = some t) (hone : Always step OneHandle s as)
    (has : .op i .storeBusy ∉ as) {q : Pc} (hq : t.sessions[i]? = some q)
    (hmid : q.midRun = true) (hs : s.STATUS ≠ busyStatus) : t.STATUS ≠ busyStatus := by
  induction as generalizing s with
  | nil =>
    cases h
    exact hs
  | cons a as ih =>
    obtain ⟨u, hu, h⟩ := exec_cons_iff.mp h
    have ha : a ≠ .op i .storeBusy := fun ha => has (ha ▸ List.mem_cons_self)
    have has' : .op i .storeBusy ∉ as := fun hmem => has (List.mem_cons_of_mem _ hmem)
    obtain ⟨p, hp, hpmid⟩ := midRun_of_exec h has' hq hmid
    obtain ⟨r, hr, hrmid⟩ := midRun_before hu ha hp hpmid
    apply ih h (hone.2 u hu) has'
    rcases status_during_run hu hone.first ha hr hrmid with hsame | hne
    · rw [hsame]
      exact hs
    · exact hne

namespace LastRun

variable {i : Nat} {pre mid : List Act} {s t : Process}

/-- Cut the history at a later point of the run. -/
theorem split {before after : List Act} (h : LastRun i pre (before ++ after) s) :
    ∃ u, LastRun i pre before u ∧ exec step u after = some s ∧ Always step OneHandle u after ∧
      .op i .storeBusy ∉ after := by
  have hreached := h.reached
  have hone := h.oneHandle
  rw [← List.cons_append, ← List.append_assoc] at hreached hone
  obtain ⟨u, hu, hs⟩ := exec_append_iff.mp hreached
  refine ⟨u, ⟨hu, hone.prefix, fun hmem => h.last ?_⟩, hs, hone.suffix hu, fun hmem => h.last ?_⟩
  · exact List.mem_append_left _ hmem
  · exact List.mem_append_right _ hmem

theorem status_ne_busy (h : LastRun i pre mid s) {c : Command} {code : UInt16}
    (hcb : .callback c code ∈ mid) {p : Pc} (hp : s.sessions[i]? = some p)
    (hmid : p.midRun = true) : s.STATUS ≠ busyStatus := by
  obtain ⟨before, after, rfl⟩ := List.append_of_mem hcb
  obtain ⟨u, _, hexec, hone, hlast⟩ := h.split
  obtain ⟨v, hv, hexec⟩ := exec_cons_iff.mp hexec
  refine status_of_callback hexec (hone.2 v hv) (fun hmem => hlast ?_) hp hmid
    (callback_status hv)
  exact List.mem_cons_of_mem _ hmem

/-- A poll after a callback leaves the loop. -/
theorem poll_after_callback (h : LastRun i pre mid s) {c : Command} {code : UInt16}
    (hcb : .callback c code ∈ mid) {st : UInt16} (hstep : step s (.op i (.load st)) = some t) :
    ∃ hd k d, s.sessions[i]? = some (.running hd k (.poll d)) ∧ st ≠ busyStatus ∧
      t.sessions[i]? = some (k.return hd (Error.fromStatus st)).1 := by
  obtain ⟨p, q, freed, hop⟩ := opStep_of_step hstep
  obtain ⟨hd, k, d, rfl, hcase⟩ := hop.edge.load_inv
  have hne := h.status_ne_busy hcb hop.before rfl
  rw [← hop.load st rfl] at hne
  rcases hcase with ⟨hst, _⟩ | ⟨_, rfl⟩
  · exact absurd hst hne
  · exact ⟨hd, k, d, hop.before, hne, hop.session⟩

end LastRun

theorem runResult_poll {s : Process} {i : Nat} {h : Handle} {k : Caller} {c : Command}
    (hi : s.sessions[i]? = some (.running h k (.poll c))) {st : UInt16} (hst : st ≠ busyStatus) :
    runResult s i (.load st) = some (Error.fromStatus st) := by
  rw [runResult, hi, Option.bind_some]
  exact Pc.runResult_poll h k c hst

/-- A poll returns exactly the status words other than `BUSY`. -/
theorem runResult_load {s : Process} {i : Nat} {st : UInt16} {r : Result Unit}
    (h : runResult s i (.load st) = some r) :
    ∃ hd k c, s.sessions[i]? = some (.running hd k (.poll c)) ∧ st ≠ busyStatus ∧
      r = Error.fromStatus st := by
  obtain ⟨p, hp, hr⟩ := Option.bind_eq_some_iff.mp h
  obtain ⟨hd, k, c, rfl, hst, rfl⟩ := Pc.runResult_load hr
  exact ⟨hd, k, c, hp, hst, rfl⟩

/-- A poll behind the callback of the command it waits for leaves the loop. -/
theorem poll_after_own_callback {as : List Act} {s : Process} (h : history as = some s)
    (hone : Always step OneHandle init as) {i : Nat} {hd : Handle} {k : Caller} {c : Command}
    (hi : s.sessions[i]? = some (.running hd k (.poll c))) {code : UInt16}
    (hcb : .callback c code ∈ as) {st : UInt16} {t : Process}
    (hstep : step s (.op i (.load st)) = some t) :
    runResult s i (.load st) = some (Error.fromStatus st) := by
  have hne := Readable.of_history h hone i _ c hi rfl (completed_of_mem h hcb).2
  obtain ⟨p, q, freed, hop⟩ := opStep_of_step hstep
  rw [← hop.load st rfl] at hne
  exact runResult_poll hi hne

/-- A run that ends in `Timeout` has seen no callback before any of its polls. -/
theorem LastRun.no_callback_of_timeout {i : Nat} {pre before after : List Act} {s t : Process}
    {st : UInt16} {o : Op} (h : LastRun i pre (before ++ .op i (.load st) :: after) s)
    (hstep : step s (.op i o) = some t) (hres : runResult s i o = some (.error .timeout))
    (c : Command) (code : UInt16) : .callback c code ∉ before := by
  intro hcb
  obtain ⟨p, q, freed, hop⟩ := opStep_of_step hstep
  rw [runResult, hop.before, Option.bind_some] at hres
  obtain ⟨hd, k, d, rfl, rfl⟩ := hop.edge.timeout_inv hres
  -- the poll has left the loop, and without a new run the session is not back in one
  obtain ⟨u, hrun, hexec, _, hlast⟩ := h.split
  obtain ⟨v, hv, hexec⟩ := exec_cons_iff.mp hexec
  obtain ⟨hd', k', d', _, _, hreturned⟩ := hrun.poll_after_callback hcb hv
  obtain ⟨r, hr, hmid⟩ := midRun_of_exec hexec
    (fun hmem => hlast (List.mem_cons_of_mem _ hmem)) hop.before rfl
  obtain rfl := Option.some.inj (hreturned.symm.trans hr)
  rw [Caller.return_midRun] at hmid
  cases hmid

/-- **A delivered completion ends the wait.** The first part speaks about the command that the
run has issued, whose callback may come at any point, also inside the call. The others speak
about callbacks of any command behind the last store of `BUSY`: a poll after one returns, and a
run that ends in `Timeout` has seen none before a poll of its own. -/
theorem completion_not_lost {as : List Act} {s : Process} (h : history as = some s)
    (hone : Always step OneHandle init as) (i : Nat) :
    (∀ hd k c code st t, s.sessions[i]? = some (.running hd k (.poll c)) →
      .callback c code ∈ as → step s (.op i (.load st)) = some t →
      runResult s i (.load st) = some (Error.fromStatus st) ∧
        Error.fromStatus st ≠ .error .timeout) ∧
    ∀ pre mid, as = pre ++ .op i .storeBusy :: mid → .op i .storeBusy ∉ mid →
      (∀ c code st t, .callback c code ∈ mid → step s (.op i (.load st)) = some t →
        runResult s i (.load st) = some (Error.fromStatus st) ∧
          Error.fromStatus st ≠ .error .timeout) ∧
      ∀ o t before st after, step s (.op i o) = some t →
        runResult s i o = some (.error .timeout) →
        mid = before ++ .op i (.load st) :: after → ∀ c code, .callback c code ∉ before := by
  constructor
  · intro hd k c code st t hi hcb hstep
    exact ⟨poll_after_own_callback h hone hi hcb hstep, fromStatus_ne_timeout st⟩
  · rintro pre mid rfl hlast
    have hrun : LastRun i pre mid s := ⟨h, hone, hlast⟩
    constructor
    · intro c code st t hcb hstep
      obtain ⟨hd, k, d, hi, hst, _⟩ := hrun.poll_after_callback hcb hstep
      exact ⟨runResult_poll hi hst, fromStatus_ne_timeout st⟩
    · rintro o t before st after hstep hres rfl c code
      exact hrun.no_callback_of_timeout hstep hres c code

/-- The rest of a first `open_application` whose callback comes before the call returns. -/
def insideCall : List Act :=
  [.op 0 (.issue ⟨3, ⟨.util, 1⟩, []⟩), .callback ⟨3, ⟨.util, 1⟩, []⟩ 0, .op 0 .callReturns]

/-- The rest of one that times out at its first poll. -/
def silentChip : List Act :=
  [.op 0 (.issue ⟨3, ⟨.util, 1⟩, []⟩), .op 0 .callReturns, .op 0 (.load busyStatus)]

/-- Both runs: the first returns what came inside the call, the second has seen nothing. -/
theorem completion_not_lost_open :
    (∃ s t, history (openDefault 0 0 ++ .op 0 .storeBusy :: insideCall) = some s ∧
      step s (.op 0 (.load 0)) = some t ∧ runResult s 0 (.load 0) = some (.ok ())) ∧
    ∃ s t, history (openDefault 0 0 ++ .op 0 .storeBusy :: silentChip) = some s ∧
      step s (.op 0 (.clock true)) = some t ∧
      runResult s 0 (.clock true) = some (.error .timeout) ∧
      ∀ c code, .callback c code ∉ silentChip.dropLast := by
  constructor
  · have hrun : history (openDefault 0 0 ++ .op 0 .storeBusy :: insideCall) = some _ := rfl
    have hown := (completion_not_lost hrun (by decide) 0).1
    exact ⟨_, _, rfl, rfl, (hown _ _ ⟨3, ⟨.util, 1⟩, []⟩ 0 0 _ rfl (by decide) rfl).1⟩
  · have hrun : history (openDefault 0 0 ++ .op 0 .storeBusy :: silentChip) = some _ := rfl
    have hbehind := (completion_not_lost hrun (by decide) 0).2
    have hlast := (hbehind (openDefault 0 0) silentChip rfl (by decide)).2
    exact ⟨_, _, rfl, rfl, rfl, hlast (.clock true) _ silentChip.dropLast _ [] rfl rfl rfl⟩

end Trustm
