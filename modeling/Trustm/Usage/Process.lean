import Mathlib.Tactic.TFAE
import Trustm.Session.Balance
import Trustm.Session.Progress
import Trustm.Usage.Protocol

/-!
# What a process shows of the library

`Pc.event` reads off an access which library call it makes; a command is counted when `run` ends.
The swaps of `OPEN` and the polls are no calls.

* `session_trace_accepted`: in every history, whatever the other threads do and whoever has lost
  its flag, the calls of each session keep to the automaton of allowed orders.
* `process_trace_tfae`: without a stale release the calls of *all* sessions together keep to it,
  and every order it allows is shown by one thread. So threads add no order of calls.
* `exists_recovery`: from every reachable state all of these orders can be shown again.
-/

namespace Trustm

open Run

/-! ## Labels -/

/-- What the command of a `run` is issued for. -/
def Caller.purpose : Caller → Purpose
  | .openInner => .openApplication
  | .method w _ => .method w
  | .close => .closeApplication

/-- How a `run` ends by this access, as far as the library is concerned. -/
def Op.completion : Op → Option Completion
  | .reject _ code => if h : code ≠ 0 then some (.refused code h) else none
  | .load st => if h : st ≠ busyStatus then some (.completed st h) else none
  | .clock true => some .silent
  | _ => none

/-- The call of the library that an access is, commands apart. -/
def Op.event : Op → List Event
  | .configure dev addr => [.configure dev.bytes addr]
  | .create w n => [.create w n.isNone]
  | .destroy x => [.destroy x.which]
  | _ => []

/-- The command that ends with an access of a session at `p`. -/
def Pc.ended (p : Pc) (o : Op) : List Event :=
  match p with
  | .running _ k _ => o.completion.toList.map (.command k.purpose)
  | _ => []

/-- The library call that a session at `p` makes or ends by this access. -/
def Pc.event (p : Pc) (o : Op) : List Event := o.event ++ p.ended o

/-- What session `i` shows. -/
def sessionLabel (i : Nat) (s : Process) : Act → List Event
  | .op j o => if j = i then (s.sessions[j]?.map fun p => p.event o).getD [] else []
  | _ => []

/-- What the process shows. -/
def processLabel (s : Process) : Act → List Event
  | .op i o => (s.sessions[i]?.map fun p => p.event o).getD []
  | _ => []

/-! ## The stage of a session -/

/-- Where the library stands during a `run`. -/
def Caller.stage : Caller → Stage
  | .openInner => .built
  | .method _ _ | .close => .opened

/-- A session at `p` has brought the library to this stage. -/
def Pc.Within (p : Pc) (u : Stage) : Prop :=
  match p with
  | .opening _ _ | .configuring _ _ | .errArm _ | .closed => u = .idle
  | .creatingUtil _ => u = .configured
  | .creatingCrypt _ _ => u = .half
  | .destroyingUtil _ _ => u = .last
  | .running _ k _ => u = k.stage
  | .live _ => u = .opened
  | .dropping _ _ .crypt => u = .opened ∨ u = .leaving
  | .dropping _ _ .util => u = .last
  | .dropping _ _ .flag | .dropping _ _ .bus => u = .idle

section

variable {h : Handle} {k : Caller} {r : RunPc} {o : Op} {u : Stage} {p q : Pc} {freed : List Obj}

/-- The end of a `run` brings the library where the caller of `run` goes on. -/
theorem Caller.return_within (c : Completion) (hu : u = k.stage) :
    ∃ v, Stage.step u (.command k.purpose c) = some v ∧ (k.return h c.result).1.Within v := by
  cases k with
  | openInner =>
    cases hu
    by_cases hc : c.result = .ok ()
    · refine ⟨.opened, if_pos hc, ?_⟩
      rw [hc]
      exact rfl
    · refine ⟨.leaving, if_neg hc, ?_⟩
      cases hres : c.result with
      | ok => exact absurd hres hc
      | error e => exact Or.inr rfl
  | method w bufs =>
    cases hu
    exact ⟨.opened, rfl, rfl⟩
  | close =>
    cases hu
    exact ⟨.leaving, rfl, Or.inr rfl⟩

theorem completion_reject {x : Inst} {code : UInt16} (hcode : Error.fromStatus code ≠ .ok ()) :
    ∃ c, (Op.reject x code).completion = some c ∧ c.result = Error.fromStatus code := by
  have hne : code ≠ 0 := mt (fromStatus_eq_ok_iff code).mpr hcode
  exact ⟨.refused code hne, dif_pos hne, rfl⟩

theorem completion_load {st : UInt16} (hst : st ≠ busyStatus) :
    ∃ c, (Op.load st).completion = some c ∧ c.result = Error.fromStatus st :=
  ⟨.completed st hst, dif_pos hst, rfl⟩

theorem Pc.next_reject {code : UInt16} (hcode : Error.fromStatus code ≠ .ok ()) :
    (Pc.running h k .call).next (.reject (h.inst k.which) code) =
      some (k.return h (Error.fromStatus code)) := by
  rw [Pc.next, RunPc.next, if_pos ⟨rfl, hcode⟩]
  rfl

theorem Pc.next_poll {c : Command} {st : UInt16} (hst : st ≠ busyStatus) :
    (Pc.running h k (.poll c)).next (.load st) = some (k.return h (Error.fromStatus st)) := by
  rw [Pc.next, RunPc.next, if_pos (mt (toUInt32_eq_busy_iff st).mp hst)]
  rfl

theorem Pc.next_dropCrypt {d : Dropper} :
    (Pc.dropping h d .crypt).next (.destroy (h.inst .crypt)) =
      some (.dropping h d .util, []) := if_pos rfl

theorem Pc.next_dropUtil {d : Dropper} :
    (Pc.dropping h d .util).next (.destroy (h.inst .util)) =
      some (.dropping h d .flag, []) := if_pos rfl

/-- A `run` that ends shows its command, with the result its caller goes on with. -/
theorem Pc.event_of_completion {c : Completion} (hevent : o.event = [])
    (hc : o.completion = some c) : (Pc.running h k r).event o = [.command k.purpose c] := by
  rw [Pc.event, hevent, Pc.ended, hc]
  rfl

theorem exec_singleton {e : Event} {u v : Stage} :
    exec Stage.step u [e] = some v ↔ Stage.step u e = some v := by
  rw [exec_cons_iff]
  constructor
  · intro h
    obtain ⟨w, hw, hv⟩ := h
    rw [hw]
    exact hv
  · intro h
    exact ⟨v, h, rfl⟩

/-- **What one access shows is what the automaton allows where the session stands.** -/
theorem Edge.within (h : Edge p o q freed) (hu : p.Within u) :
    ∃ v, exec Stage.step u (p.event o) = some v ∧ q.Within v := by
  cases h with
  | configure =>
    cases hu
    rename_i bus addr
    exact ⟨.configured, exec_singleton.mpr (if_neg bus.nulFree), rfl⟩
  | reject hcode =>
    obtain ⟨c, hc, hres⟩ := completion_reject hcode
    obtain ⟨v, hv, hq⟩ := Caller.return_within c hu
    rw [Pc.event_of_completion rfl hc, ← hres]
    exact ⟨v, exec_singleton.mpr hv, hq⟩
  | pollDone hst =>
    obtain ⟨c, hc, hres⟩ := completion_load hst
    obtain ⟨v, hv, hq⟩ := Caller.return_within c hu
    rw [Pc.event_of_completion rfl hc, ← hres]
    exact ⟨v, exec_singleton.mpr hv, hq⟩
  | timeout =>
    obtain ⟨v, hv, hq⟩ := Caller.return_within .silent hu
    exact ⟨v, exec_singleton.mpr hv, hq⟩
  | dropCrypt =>
    rcases hu with rfl | rfl
    · exact ⟨.last, rfl, rfl⟩
    · exact ⟨.last, rfl, rfl⟩
  | dropBus =>
    rename_i d
    cases hu
    cases d <;> exact ⟨.idle, rfl, rfl⟩
  | enterDrop =>
    cases hu
    exact ⟨.opened, rfl, Or.inl rfl⟩
  | storeBusy | issue | callReturns | pollBusy | again => exact ⟨u, rfl, hu⟩
  | _ =>
    cases hu
    exact ⟨_, rfl, rfl⟩

end

/-! ## One session -/

section

variable {s t : Process} {i : Nat} {o : Op} {p q : Pc} {freed : List Obj}

theorem OpStep.sessionLabel (h : OpStep s i o t p q freed) :
    sessionLabel i s (.op i o) = p.event o := by
  rw [Trustm.sessionLabel, if_pos rfl, h.before]
  rfl

theorem OpStep.processLabel (h : OpStep s i o t p q freed) :
    processLabel s (.op i o) = p.event o := by
  rw [Trustm.processLabel, h.before]
  rfl

/-- Session `i` has brought the library to this stage; it is to open if it is not there. -/
def SessionAt (i : Nat) (s : Process) (u : Stage) : Prop :=
  (s.sessions[i]?.map fun p => p.Within u).getD (u = .idle)

theorem SessionAt.step {a : Act} {u : Stage} (hu : SessionAt i s u) (h : Trustm.step s a = some t) :
    ∃ v, exec Stage.step u (Trustm.sessionLabel i s a) = some v ∧ SessionAt i t v := by
  cases a with
  | openRefused =>
    obtain ⟨_, rfl⟩ := openRefused_step h
    exact ⟨u, rfl, hu⟩
  | openSwap bus addr =>
    obtain ⟨_, rfl⟩ := openSwap_step h
    have hsame := getD_map_concat (fun p : Pc => p.Within u) s.sessions (.opening bus addr) i
    exact ⟨u, rfl, hsame.mpr hu⟩
  | op j o =>
    obtain ⟨p, q, freed, hop⟩ := opStep_of_step h
    by_cases hji : j = i
    · subst hji
      rw [SessionAt, hop.before] at hu
      obtain ⟨v, hv, hq⟩ := hop.edge.within hu
      refine ⟨v, hop.sessionLabel ▸ hv, ?_⟩
      rw [SessionAt, hop.session]
      exact hq
    · refine ⟨u, ?_, ?_⟩
      · rw [Trustm.sessionLabel, if_neg hji]
        rfl
      · rw [SessionAt, hop.other hji]
        exact hu
  | callback c st =>
    obtain ⟨_, _, rfl⟩ := callback_step h
    exact ⟨u, rfl, hu⟩

end

/-- **In every interleaving each session keeps to the order.** -/
theorem session_trace_accepted {as : List Act} {s : Process} (h : history as = some s) {i : Nat}
    {p : Pc} (hp : s.sessions[i]? = some p) :
    ∃ u, exec Stage.step .idle (trace step (sessionLabel i) init as) = some u ∧ p.Within u := by
  have hC : Meets step (fun _ _ => True) init as := meets_of_forall fun _ _ _ => trivial
  have hstart : SessionAt i init .idle := by simp [SessionAt, init]
  obtain ⟨u, hu, hw⟩ := exec_trace_of_simulation (R := SessionAt i)
    (fun _ _ _ _ hR _ hstep => hR.step hstep) hstart hC h
  rw [SessionAt, hp] at hw
  exact ⟨u, hu, hw⟩

/-- Also session 0 of these opens, which has released `OPEN` twice. -/
theorem session_trace_accepted_overlappingOpens :
    ∃ u, exec Stage.step .idle (trace step (sessionLabel 0) init overlappingOpens) = some u ∧
      Pc.closed.Within u :=
  session_trace_accepted (s := (history overlappingOpens).getD init) rfl rfl

/-! ## All sessions -/

/-- The active session, if there is one, has brought the library to this stage. -/
structure Brought (s : Process) (u : Stage) : Prop where
  within : ∀ p ∈ s.sessions, p.active = true → p.Within u
  idle : s.OPEN = false → u = .idle

namespace Brought

variable {s t : Process} {u : Stage}

theorem start : Brought init .idle := ⟨by simp [init], fun _ => rfl⟩

theorem idle_of_inactive {p : Pc} (hp : p.active = false) (hu : p.Within u) : u = .idle := by
  unfold Pc.active at hp
  split at hp
  · exact hu
  · exact hu
  · exact hu
  · cases hp

/-- A session that is not active any more makes no call of the library. -/
theorem event_of_inactive {p q : Pc} {o : Op} {freed : List Obj} (h : Edge p o q freed)
    (hp : p.active = false) : p.event o = [] := by
  cases h <;> first | rfl | cases hp

theorem inactive_step {p q : Pc} {o : Op} {freed : List Obj} (h : Edge p o q freed)
    (hp : p.active = false) : q.active = false := by
  by_cases ho : o = .storeOpen
  · subst ho
    exact h.release.1
  · rw [h.active_eq ho, hp]

theorem op {i : Nat} {o : Op} {p q : Pc} {freed : List Obj} (hu : Brought s u)
    (hone : SingleSession s) (hone' : SingleSession t) (ha : NoStaleRelease s (.op i o))
    (h : OpStep s i o t p q freed) :
    ∃ v, exec Stage.step u (p.event o) = some v ∧ Brought t v := by
  by_cases hp : p.active = true
  · obtain ⟨v, hv, hq⟩ := h.edge.within (hu.within p h.mem_before hp)
    refine ⟨v, hv, ?_, ?_⟩
    · intro r hr hactive
      obtain ⟨j, hj⟩ := List.mem_iff_getElem?.mp hr
      by_cases hij : i = j
      · subst hij
        obtain rfl := Option.some.inj (h.session.symm.trans hj)
        exact hq
      · -- another active session would have been one before
        rw [h.other hij] at hj
        exact absurd (hone.unique h.before hj hp hactive) hij
    · intro hopen
      by_cases hactive : q.active = true
      · have hpos := List.countP_pos_iff.mpr ⟨q, List.mem_of_getElem? h.session, hactive⟩
        rw [hone'.2 hpos] at hopen
        cases hopen
      · exact idle_of_inactive ((Bool.not_eq_true _).mp hactive) hq
  · have hp := (Bool.not_eq_true _).mp hp
    rw [event_of_inactive h.edge hp]
    refine ⟨u, rfl, ?_, ?_⟩
    · intro r hr hactive
      rcases h.mem_sessions hr with rfl | hr
      · rw [inactive_step h.edge hp] at hactive
        cases hactive
      · exact hu.within r hr hactive
    · intro hopen
      rw [h.OPEN] at hopen
      by_cases ho : o = .storeOpen
      · subst ho
        obtain ⟨_, hactive | rfl⟩ := h.edge.release
        · rw [hp] at hactive
          cases hactive
        · exact hu.idle (ha h.before)
      · rw [if_neg ho] at hopen
        exact hu.idle hopen

theorem step {a : Act} (hu : Brought s u) (hone : SingleSession s) (ha : NoStaleRelease s a)
    (h : Trustm.step s a = some t) :
    ∃ v, exec Stage.step u (processLabel s a) = some v ∧ Brought t v := by
  have hone' := hone.step ha h
  cases a with
  | openRefused =>
    obtain ⟨_, rfl⟩ := openRefused_step h
    exact ⟨u, rfl, hu⟩
  | openSwap bus addr =>
    obtain ⟨hopen, rfl⟩ := openSwap_step h
    obtain rfl := hu.idle hopen
    refine ⟨.idle, rfl, ?_, fun _ => rfl⟩
    intro p hp hactive
    rcases List.mem_append.mp hp with hp | hp
    · exact hu.within p hp hactive
    · rw [List.mem_singleton.mp hp]
      exact rfl
  | op i o =>
    obtain ⟨p, q, freed, hop⟩ := opStep_of_step h
    rw [hop.processLabel]
    exact hu.op hone hone' ha hop
  | callback c st =>
    obtain ⟨_, _, rfl⟩ := callback_step h
    exact ⟨u, rfl, hu.within, hu.idle⟩

end Brought

/-- At rest the library stands where `OPEN` says. -/
theorem Brought.stage_of_atRest {s : Process} {u : Stage} (hu : Brought s u) (hwf : Consistent s)
    (hrest : AtRest s) : u = if s.OPEN then .opened else .idle := by
  cases hopen : s.OPEN with
  | false => exact hu.idle hopen
  | true =>
    obtain ⟨p, hp, hactive⟩ := hwf.openActive hopen
    have hw := hu.within p hp hactive
    rcases Pc.live_or_closed (hrest p hp) with ⟨h, rfl⟩ | rfl
    · exact hw
    · cases hactive

/-- What a process shows from its start, each action under `C`. -/
abbrev Shows (C : Process → Act → Prop) (es : List Event) (s : Process) : Prop :=
  Reaches step C processLabel init es s

theorem brought_of_shows {es : List Event} {s : Process} (h : Shows NoStaleRelease es s) :
    ∃ u, exec Stage.step .idle es = some u ∧ Brought s u := by
  obtain ⟨as, hexec, hrel, rfl⟩ := h
  have hsingle := SingleSession.of_noStaleRelease hrel
  apply exec_trace_of_simulation _ Brought.start (hsingle.meets.and hrel) hexec
  intro s a t u hu hC hstep
  exact hu.step hC.1.1 hC.2 hstep

/-! ## One thread shows every order -/

/-- Session `i` is at `p`, and the others are at rest. -/
structure Solo (s : Process) (i : Nat) (p : Pc) : Prop where
  session : s.sessions[i]? = some p
  others : ∀ q ∈ s.sessions.eraseIdx i, q.atRest = true

/-- One thread gets from `s` to `t` by actions that show `es`. -/
abbrev Drives (s : Process) (es : List Event) (t : Process) : Prop :=
  Reaches step Sequential processLabel s es t

namespace Solo

variable {s : Process} {i : Nat} {p q : Pc} {freed : List Obj}

theorem atRest (h : Solo s i p) (hp : p.atRest = true) : AtRest s := by
  intro r hr
  obtain ⟨j, hj⟩ := List.mem_iff_getElem?.mp hr
  by_cases hij : i = j
  · subst hij
    obtain rfl := Option.some.inj (h.session.symm.trans hj)
    exact hp
  · exact h.others r (List.mem_eraseIdx_iff_getElem?.mpr ⟨j, fun hji => hij hji.symm, hj⟩)

/-- The session makes an access that its source allows and whose answer fits. -/
theorem step (h : Solo s i p) (o : Op) (hnext : p.next o = some (q, freed))
    (hexec : (o.exec s).isSome) :
    ∃ t, Drives s (p.event o) t ∧ Solo t i q ∧ OpStep s i o t p q freed := by
  obtain ⟨t, ht, hop⟩ := exists_opStep h.session hnext hexec
  refine ⟨t, ?_, ⟨hop.session, ?_⟩, hop⟩
  · rw [← hop.processLabel]
    exact Reaches.of_step ht h.others
  · rw [hop.sessions, List.eraseIdx_set_eq]
    exact h.others

/-- `run` up to its polls, the command accepted. -/
theorem issue {hd : Handle} {k : Caller} (h : Solo s i (.running hd k .storeBusy)) :
    ∃ t c, Drives s [] t ∧ Solo t i (.running hd k (.poll c)) ∧ c ∈ t.pending ∧
      t.STATUS = busyStatus ∧ t.OPEN = s.OPEN := by
  obtain ⟨s₁, hd₁, h₁, hop₁⟩ := h.step .storeBusy rfl rfl
  obtain ⟨s₂, hd₂, h₂, hop₂⟩ := h₁.step _ (Pc.next_issue hd k s₁.fresh) (by simp [Op.exec])
  obtain ⟨s₃, hd₃, h₃, hop₃⟩ := h₂.step .callReturns rfl rfl
  refine ⟨s₃, _, (hd₁.trans hd₂).trans hd₃, h₃, ?_, ?_, ?_⟩
  · rw [hop₃.pending, hop₂.pending]
    exact List.mem_cons_self
  · rw [hop₃.STATUS, hop₂.STATUS, hop₁.STATUS]
    simp
  · rw [hop₃.OPEN, hop₂.OPEN, hop₁.OPEN]
    simp

/-- The library may end a `run` in every way. -/
theorem run {hd : Handle} {k : Caller} (h : Solo s i (.running hd k .storeBusy)) (c : Completion) :
    ∃ t, Drives s [.command k.purpose c] t ∧ Solo t i (k.return hd c.result).1 ∧
      t.OPEN = s.OPEN := by
  cases c with
  | refused code hcode =>
    obtain ⟨s₁, hd₁, h₁, hop₁⟩ := h.step .storeBusy rfl rfl
    obtain ⟨s₂, hd₂, h₂, hop₂⟩ := h₁.step (.reject (hd.inst k.which) code)
      (Pc.next_reject (mt (fromStatus_eq_ok_iff code).mp hcode)) rfl
    refine ⟨s₂, ?_, h₂, ?_⟩
    · have hshown : (Pc.running hd k .call).event (.reject (hd.inst k.which) code) =
          [.command k.purpose (.refused code hcode)] := Pc.event_of_completion rfl (dif_pos hcode)
      rw [← hshown]
      exact hd₁.trans hd₂
    · rw [hop₂.OPEN, hop₁.OPEN]
      simp
  | completed st hst =>
    obtain ⟨s₁, c, hd₁, h₁, hmem, _, hopen₁⟩ := h.issue
    have hcb : Trustm.step s₁ (.callback c st) = some
        { s₁ with STATUS := st, pending := s₁.pending.erase c } := if_pos ⟨hmem, hst⟩
    have h₂ : Solo { s₁ with STATUS := st, pending := s₁.pending.erase c } i
        (.running hd k (.poll c)) := ⟨h₁.session, h₁.others⟩
    obtain ⟨s₃, hd₃, h₃, hop₃⟩ := h₂.step (.load st) (Pc.next_poll hst) (by simp [Op.exec])
    refine ⟨s₃, ?_, h₃, ?_⟩
    · have hshown : (Pc.running hd k (.poll c)).event (.load st) =
          [.command k.purpose (.completed st hst)] := Pc.event_of_completion rfl (dif_pos hst)
      rw [← hshown]
      exact (hd₁.silent hcb trivial rfl).trans hd₃
    · rw [hop₃.OPEN, if_neg (by simp)]
      exact hopen₁
  | silent =>
    obtain ⟨s₁, c, hd₁, h₁, _, hbusy, hopen₁⟩ := h.issue
    obtain ⟨s₂, hd₂, h₂, hop₂⟩ := h₁.step (.load busyStatus) (q := .running hd k (.check c))
      rfl (by simp [Op.exec, hbusy])
    obtain ⟨s₃, hd₃, h₃, hop₃⟩ := h₂.step (.clock true) rfl rfl
    refine ⟨s₃, (hd₁.trans hd₂).trans hd₃, h₃, ?_⟩
    rw [hop₃.OPEN, hop₂.OPEN]
    simp [hopen₁]

/-- `Drop`, with what its caller does after it. -/
theorem drop {hd : Handle} {d : Dropper} (h : Solo s i (.dropping hd d .crypt)) :
    ∃ t, Drives s [.destroy .crypt, .destroy .util] t ∧ AtRest t ∧ t.OPEN = false := by
  obtain ⟨s₁, hd₁, h₁, _⟩ := h.step (.destroy (hd.inst .crypt)) Pc.next_dropCrypt rfl
  obtain ⟨s₂, hd₂, h₂, _⟩ := h₁.step (.destroy (hd.inst .util)) Pc.next_dropUtil rfl
  obtain ⟨s₃, hd₃, h₃, hop₃⟩ := h₂.step .storeOpen rfl rfl
  obtain ⟨s₄, hd₄, h₄, hop₄⟩ := h₃.step .freeBus rfl rfl
  have hall := ((hd₁.trans hd₂).trans hd₃).trans hd₄
  have hopen : s₄.OPEN = false := by
    rw [hop₄.OPEN, hop₃.OPEN]
    simp
  cases d with
  | owner => exact ⟨s₄, hall, h₄.atRest rfl, hopen⟩
  | openInner =>
    obtain ⟨s₅, hd₅, h₅, hop₅⟩ := h₄.step .storeOpen rfl rfl
    exact ⟨s₅, hall.trans hd₅, h₅.atRest rfl, by rw [hop₅.OPEN, if_pos rfl]⟩

/-- The error arm of `open`. -/
theorem errArm {built : Bool} (h : Solo s i (.errArm built)) :
    ∃ t, Drives s [] t ∧ AtRest t ∧ t.OPEN = false := by
  obtain ⟨t, hd, h, hop⟩ := h.step .storeOpen rfl rfl
  exact ⟨t, hd, h.atRest rfl, by rw [hop.OPEN, if_pos rfl]⟩

end Solo

/-- Between two calls of the API. -/
def Process.At (s : Process) : Stage → Prop
  | .idle => AtRest s ∧ s.OPEN = false
  | .opened => s.OPEN = true ∧ ∃ i h, Solo s i (.live h)
  | _ => False

theorem Process.At.atRest {s : Process} {u : Stage} (h : s.At u) : AtRest s := by
  cases u with
  | idle => exact h.1
  | opened =>
    obtain ⟨_, i, hd, h⟩ := h
    exact h.atRest rfl
  | _ => exact h.elim

/-- `open` up to the creation of the instances. -/
theorem exists_creating {s : Process} (h : s.At .idle) {bus : List UInt8} (addr : UInt8)
    (hbus : 0 ∉ bus) :
    ∃ t i c, Drives s [.configure bus addr] t ∧ Solo t i (.creatingUtil c) ∧ t.OPEN = true := by
  obtain ⟨hrest, hopen⟩ := h
  have hstep : step s (.openSwap bus addr) = some
      { s with OPEN := true, sessions := s.sessions ++ [.opening bus addr] } := by
    rw [step, hopen]
    rfl
  have h₀ : Solo { s with OPEN := true, sessions := s.sessions ++ [.opening bus addr] }
      s.sessions.length (.opening bus addr) := by
    refine ⟨List.getElem?_concat_length, ?_⟩
    rw [List.eraseIdx_append_of_length_le (Nat.le_refl _), Nat.sub_self]
    simp only [List.eraseIdx_cons_zero, List.append_nil]
    exact hrest
  obtain ⟨s₁, hd₁, h₁, hop₁⟩ := h₀.step (.cstringNew (some ⟨s.fresh, bus, hbus⟩))
    (if_pos rfl) (by simp [Op.exec])
  obtain ⟨s₂, hd₂, h₂, hop₂⟩ := h₁.step (.configure ⟨s.fresh, bus, hbus⟩ addr)
    (if_pos ⟨rfl, rfl⟩) rfl
  refine ⟨s₂, _, _, (Reaches.of_step hstep hrest).trans (hd₁.trans hd₂), h₂, ?_⟩
  rw [hop₂.OPEN, hop₁.OPEN]
  simp

/-- `open` up to the end of `open_application`. -/
theorem exists_opening {s : Process} (h : s.At .idle) {bus : List UInt8} (addr : UInt8)
    (hbus : 0 ∉ bus) (c : Completion) :
    ∃ t i hd, t.OPEN = true ∧ Solo t i (Caller.openInner.return hd c.result).1 ∧
      Drives s [.configure bus addr, .create .util false, .create .crypt false,
        .command .openApplication c] t := by
  obtain ⟨s₁, i, b, hd₁, h₁, hopen₁⟩ := exists_creating h addr hbus
  obtain ⟨s₂, hd₂, h₂, hop₂⟩ := h₁.step (.create .util (some s₁.fresh)) rfl (by simp [Op.exec])
  obtain ⟨s₃, hd₃, h₃, hop₃⟩ := h₂.step (.create .crypt (some s₂.fresh)) rfl (by simp [Op.exec])
  obtain ⟨s₄, hd₄, h₄, hopen₄⟩ := h₃.run c
  refine ⟨s₄, i, _, ?_, h₄, ((hd₁.trans hd₂).trans hd₃).trans hd₄⟩
  rw [hopen₄, hop₃.OPEN, hop₂.OPEN]
  simp [hopen₁]

/-- One thread can make every call of the API, with every outcome. -/
theorem exists_drives {s : Process} {u v : Stage} {es : List Event} (h : s.At u)
    (hcall : Call u es v) : ∃ t, Drives s es t ∧ t.At v := by
  cases hcall with
  | utilNull hbus =>
    obtain ⟨s₁, i, c, hd₁, h₁, _⟩ := exists_creating h _ hbus
    obtain ⟨s₂, hd₂, h₂, _⟩ := h₁.step (.create .util none) rfl rfl
    obtain ⟨s₃, hd₃, hrest⟩ := h₂.errArm
    exact ⟨s₃, (hd₁.trans hd₂).trans hd₃, hrest⟩
  | cryptNull hbus =>
    obtain ⟨s₁, i, c, hd₁, h₁, _⟩ := exists_creating h _ hbus
    obtain ⟨s₂, hd₂, h₂, _⟩ := h₁.step (.create .util (some s₁.fresh)) rfl (by simp [Op.exec])
    obtain ⟨s₃, hd₃, h₃, _⟩ := h₂.step (.create .crypt none) rfl rfl
    obtain ⟨s₄, hd₄, h₄, _⟩ := h₃.step (.destroy ⟨.util, s₁.fresh⟩) (if_pos rfl) rfl
    obtain ⟨s₅, hd₅, hrest⟩ := h₄.errArm
    exact ⟨s₅, (((hd₁.trans hd₂).trans hd₃).trans hd₄).trans hd₅, hrest⟩
  | openFails hbus hc =>
    rename_i bus addr c
    obtain ⟨s₁, i, hd, _, h₁, hd₁⟩ := exists_opening h addr hbus c
    cases hres : c.result with
    | ok => exact absurd hres hc
    | error e =>
      rw [hres] at h₁
      obtain ⟨s₂, hd₂, hrest⟩ := Solo.drop h₁
      exact ⟨s₂, hd₁.trans hd₂, hrest⟩
  | opens hbus hc =>
    rename_i bus addr c
    obtain ⟨s₁, i, hd, hopen, h₁, hd₁⟩ := exists_opening h addr hbus c
    rw [hc] at h₁
    exact ⟨s₁, hd₁, hopen, i, hd, h₁⟩
  | method w c =>
    obtain ⟨hopen, i, hd, h₀⟩ := h
    obtain ⟨s₁, hd₁, h₁, hop₁⟩ := h₀.step (.enter w []) rfl rfl
    obtain ⟨s₂, hd₂, h₂, hopen₂⟩ := h₁.run c
    refine ⟨s₂, hd₁.trans hd₂, ?_, i, hd, h₂⟩
    rw [hopen₂, hop₁.OPEN]
    simp [hopen]
  | close c =>
    obtain ⟨_, i, hd, h₀⟩ := h
    obtain ⟨s₁, hd₁, h₁, _⟩ := h₀.step .enterClose rfl rfl
    obtain ⟨s₂, hd₂, h₂, _⟩ := h₁.run c
    obtain ⟨s₃, hd₃, hrest⟩ := Solo.drop h₂
    exact ⟨s₃, (hd₁.trans hd₂).trans hd₃, hrest⟩
  | drop =>
    obtain ⟨_, i, hd, h₀⟩ := h
    obtain ⟨s₁, hd₁, h₁, _⟩ := h₀.step .enterDrop rfl rfl
    obtain ⟨s₂, hd₂, hrest⟩ := h₁.drop
    exact ⟨s₂, hd₁.trans hd₂, hrest⟩

theorem exists_drives_of_calls {s : Process} {u v : Stage} {es : List Event} (h : s.At u)
    (hcalls : Calls u es v) : ∃ t, Drives s es t ∧ t.At v := by
  induction hcalls generalizing s with
  | nil => exact ⟨s, Reaches.refl, h⟩
  | cons hcall _ ih =>
    obtain ⟨t, hd, ht⟩ := exists_drives h hcall
    obtain ⟨w, hd', hw⟩ := ih ht
    exact ⟨w, hd.trans hd', hw⟩

/-! ## The language of the process -/

/-- Where the library stands between two calls of the API. -/
def Stage.resting (b : Bool) : Stage := if b then .opened else .idle

/-- Sound: whatever interleaved threads show is allowed. -/
theorem exec_of_shows {es : List Event} {s : Process} (h : Shows NoStaleRelease es s)
    (hrest : AtRest s) : exec Stage.step .idle es = some (.resting s.OPEN) := by
  obtain ⟨u, hu, hbrought⟩ := brought_of_shows h
  obtain ⟨as, hexec, _⟩ := h
  rw [Stage.resting, ← hbrought.stage_of_atRest (Consistent.of_history hexec) hrest]
  exact hu

theorem Shows.noStaleRelease {es : List Event} {s : Process} (h : Shows Sequential es s) :
    Shows NoStaleRelease es s := by
  obtain ⟨as, hexec, hseq, hes⟩ := h
  exact ⟨as, hexec, noStaleRelease_of_sequential hseq, hes⟩

/-- Complete: whatever is allowed, one thread shows, from wherever nothing is open. -/
theorem exists_drives_of_accepted {s : Process} (hs : s.At .idle) {es : List Event} {b : Bool}
    (h : exec Stage.step .idle es = some (.resting b)) :
    ∃ t, Drives s es t ∧ AtRest t ∧ t.OPEN = b := by
  have hrest : (Stage.resting b).atRest = true := by cases b <;> rfl
  obtain ⟨t, hd, ht⟩ := exists_drives_of_calls hs ((calls_iff hrest rfl).mpr h)
  refine ⟨t, hd, ht.atRest, ?_⟩
  cases b with
  | false => exact ht.2
  | true => exact ht.1

theorem exists_shows {es : List Event} {b : Bool}
    (h : exec Stage.step .idle es = some (.resting b)) :
    ∃ s, Shows Sequential es s ∧ AtRest s ∧ s.OPEN = b :=
  exists_drives_of_accepted ⟨by simp [AtRest, init], rfl⟩ h

/-- **Threads add no order of library calls.** The orders of library calls that
interleaved threads show when no release is stale, those that a single thread shows and those that
the automaton allows are the same, with `OPEN` telling where they end. -/
theorem process_trace_tfae (es : List Event) (b : Bool) :
    [∃ s, Shows NoStaleRelease es s ∧ AtRest s ∧ s.OPEN = b,
      ∃ s, Shows Sequential es s ∧ AtRest s ∧ s.OPEN = b,
      exec Stage.step .idle es = some (.resting b)].TFAE := by
  tfae_have 1 → 3 := by
    intro h
    obtain ⟨s, hs, hrest, rfl⟩ := h
    exact exec_of_shows hs hrest
  tfae_have 3 → 2 := exists_shows
  tfae_have 2 → 1 := by
    intro h
    obtain ⟨s, hs, hend⟩ := h
    exact ⟨s, Shows.noStaleRelease hs, hend⟩
  tfae_finish

/-! ## Recovery -/

theorem Quiet.at_idle {s : Process} (h : Quiet s) : s.At .idle := by
  refine ⟨?_, h.OPEN⟩
  intro p hp
  rw [h.sessions p hp]
  rfl

/-- **Whatever has happened, the library can be used again as by a new process.** From every
reachable state, also behind a timeout or a stale release, the sessions that are there can come to
their end with nothing left, and from there one thread shows every order the automaton allows. -/
theorem exists_recovery {as : List Act} {s : Process} (h : history as = some s) :
    ∃ bs u, history (as ++ bs) = some u ∧ u.sessions.length = s.sessions.length ∧ Quiet u ∧
      ∀ es b, exec Stage.step .idle es = some (.resting b) →
        ∃ t, Drives u es t ∧ AtRest t ∧ t.OPEN = b := by
  obtain ⟨bs, u, hu, hlen, hquiet⟩ := exists_quiet h
  refine ⟨bs, u, hu, hlen, hquiet, ?_⟩
  intro es b hes
  exact exists_drives_of_accepted hquiet.at_idle hes

/-- Two sessions are active, and a third one opens behind them. -/
theorem exists_recovery_overlappingOpens :
    ∃ bs u t, history (overlappingOpens ++ bs) = some u ∧
      u.sessions.length = ((history overlappingOpens).getD init).sessions.length ∧ Quiet u ∧
      Drives u [.configure [0x33] 0x30, .create .util false, .create .crypt false,
        .command .openApplication (.completed 0 (by decide))] t ∧ AtRest t ∧ t.OPEN = true := by
  have hrun : history overlappingOpens = some _ := rfl
  obtain ⟨bs, u, hu, hlen, hquiet, hagain⟩ := exists_recovery hrun
  obtain ⟨t, ht⟩ := hagain [.configure [0x33] 0x30, .create .util false, .create .crypt false,
    .command .openApplication (.completed 0 (by decide))] true rfl
  exact ⟨bs, u, t, hu, hlen, hquiet, ht⟩

end Trustm
