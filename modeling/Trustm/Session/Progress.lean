import Trustm.Session.OpenFlag
import Trustm.Support.Simulation

/-!
# No call blocks and no call goes on for ever

`run` waits for a callback that may never come, and every other wait of a caller is one of its
own steps. So what holds is stated without any fairness: neither the library nor another thread
can keep a session from its next step, and its steps are counted.

* `Pc.fuel` is a bound on the steps a session has left, if its owner asks for no more methods and
  its clock has run out.
* `session_bounded`: in every interleaving the steps of a session are bounded by its methods and
  by the clock readings before the timeout, and unless it is closed it can take one more.
* `exists_quiet`: from every reachable state the process can come to rest with nothing left.
-/

namespace Trustm

open Run Ownership

/-! ## Fuel -/

def RunPc.fuel : RunPc → Nat
  | .storeBusy => 5
  | .call => 4
  | .inCall _ => 3
  | .poll _ => 2
  | .check _ => 1

/-- What is left behind a `run`. -/
def Caller.fuel : Caller → Nat
  | .openInner | .method _ _ => 10
  | .close => 4

def DropPc.fuel : DropPc → Nat
  | .crypt => 4
  | .util => 3
  | .flag => 2
  | .bus => 1

def Dropper.fuel : Dropper → Nat
  | .openInner => 1
  | .owner => 0

def Pc.fuel : Pc → Nat
  | .opening _ _ => 19
  | .configuring _ _ => 18
  | .creatingUtil _ => 17
  | .creatingCrypt _ _ => 16
  | .destroyingUtil _ _ => 2
  | .running _ k r => r.fuel + k.fuel
  | .live _ => 10
  | .dropping _ d r => r.fuel + d.fuel
  | .errArm _ => 1
  | .closed => 0

/-- What a step adds: a method is entered, or a clock reading sends `run` back to its poll. -/
def Op.credit : Op → Nat
  | .enter _ _ => 6
  | .clock false => 2
  | _ => 0

theorem Caller.return_fuel (k : Caller) (h : Handle) (r : Result Unit) :
    (k.return h r).1.fuel ≤ k.fuel := by
  unfold Caller.return
  split <;> simp [Pc.fuel, Caller.fuel, DropPc.fuel, Dropper.fuel]

theorem Edge.fuel {p q : Pc} {o : Op} {freed : List Obj} (h : Edge p o q freed) :
    1 + q.fuel ≤ p.fuel + o.credit := by
  cases h with
  | reject hcode =>
    rename_i h k code
    have hreturn := k.return_fuel h (Error.fromStatus code)
    show 1 + (k.return h _).1.fuel ≤ 4 + k.fuel + 0
    omega
  | pollDone hst =>
    rename_i h k c st
    have hreturn := k.return_fuel h (Error.fromStatus st)
    show 1 + (k.return h _).1.fuel ≤ 2 + k.fuel + 0
    omega
  | timeout =>
    rename_i h k c
    have hreturn := k.return_fuel h (.error .timeout)
    show 1 + (k.return h _).1.fuel ≤ 1 + k.fuel + 0
    omega
  | dropBus =>
    rename_i h d
    cases d <;> exact Nat.le_refl _
  | cstringNul | utilNull | cryptNull | destroyUtil => simp [Pc.fuel, Op.credit]
  | cstringNew | configure | util | crypt | errArm => exact Nat.le_refl _
  | enterClose | enterDrop => exact Nat.le_of_ble_eq_true rfl
  | _ =>
    simp only [Pc.fuel, RunPc.fuel, Caller.fuel, DropPc.fuel, Op.credit]
    omega

/-! ## Steps of a session -/

def ownStep (i : Nat) : Act → Bool
  | .op j _ => j == i
  | _ => false

/-- What a step adds to the steps of session `i`. -/
def ownCredit (i : Nat) : Act → Nat
  | .op j o => if j = i then o.credit else 0
  | _ => 0

/-- The fuel of session `i`, which is to open if it is not there. -/
def fuelOf (i : Nat) (s : Process) : Nat := (s.sessions[i]?.map Pc.fuel).getD 19

theorem fuelOf_step {s t : Process} {i : Nat} {a : Act} (h : step s a = some t) :
    (ownStep i a).toNat + fuelOf i t ≤ fuelOf i s + ownCredit i a := by
  cases a with
  | openRefused =>
    obtain ⟨_, rfl⟩ := openRefused_step h
    exact Nat.le_of_eq (Nat.add_comm _ _)
  | openSwap bus addr =>
    obtain ⟨_, rfl⟩ := openSwap_step h
    have hsame := getD_map_concat Pc.fuel s.sessions (.opening bus addr) i
    exact Nat.le_of_eq ((Nat.zero_add _).trans hsame)
  | op j o =>
    obtain ⟨p, q, freed, hop⟩ := opStep_of_step h
    by_cases hji : j = i
    · subst hji
      have hedge := hop.edge.fuel
      simp only [ownStep, ownCredit, fuelOf, hop.before, hop.session]
      simpa using hedge
    · have hno : (j == i) = false := beq_false_of_ne hji
      simp only [ownStep, ownCredit, fuelOf, hop.other hji, if_neg hji, hno]
      exact Nat.le_of_eq (Nat.zero_add _)
  | callback c st =>
    obtain ⟨_, _, rfl⟩ := callback_step h
    exact Nat.le_of_eq (Nat.add_comm _ _)

theorem ownSteps_le {as : List Act} {s : Process} (h : history as = some s) (i : Nat) :
    as.countP (ownStep i) + fuelOf i s ≤ 19 + (as.map (ownCredit i)).sum := by
  have hstart : fuelOf i init = 19 := by simp [fuelOf, init]
  rw [← hstart]
  exact countP_le_of_step (fun s a t hstep => fuelOf_step (i := i) hstep) h

/-! ## Every session can go on -/

/-- An access that the source makes at `p`, that the state can answer and that adds nothing. -/
structure Downward (s : Process) (p : Pc) (o : Op) (q : Pc) (freed : List Obj) : Prop where
  next : p.next o = some (q, freed)
  answer : (o.exec s).isSome
  credit : o.credit = 0
  issued : o.issued = []

theorem exists_downward_run (s : Process) (h : Handle) (k : Caller) (r : RunPc) :
    ∃ o q freed, Downward s (.running h k r) o q freed := by
  cases r with
  | storeBusy => exact ⟨.storeBusy, _, _, rfl, rfl, rfl, rfl⟩
  | call =>
    -- the library may always reject
    have hcode : Error.fromStatus 2 ≠ .ok () := mt (fromStatus_eq_ok_iff 2).mp (by decide)
    have hnext : (Pc.running h k .call).next (.reject (h.inst k.which) 2) =
        some (k.return h (Error.fromStatus 2)) := by
      rw [Pc.next, RunPc.next, if_pos ⟨rfl, hcode⟩]
      rfl
    exact ⟨_, _, _, hnext, rfl, rfl, rfl⟩
  | inCall c => exact ⟨.callReturns, _, _, rfl, rfl, rfl, rfl⟩
  | poll c =>
    have hanswer : ((Op.load s.STATUS).exec s).isSome := by simp [Op.exec]
    by_cases hst : s.STATUS = busyStatus
    · have hnext : (Pc.running h k (.poll c)).next (.load s.STATUS) =
          some (.running h k (.check c), []) := by
        rw [Pc.next, RunPc.next, hst]
        rfl
      exact ⟨_, _, _, hnext, hanswer, rfl, rfl⟩
    · have hnext : (Pc.running h k (.poll c)).next (.load s.STATUS) =
          some (k.return h (Error.fromStatus s.STATUS)) := by
        rw [Pc.next, RunPc.next, if_pos (mt (toUInt32_eq_busy_iff _).mp hst)]
        rfl
      exact ⟨_, _, _, hnext, hanswer, rfl, rfl⟩
  | check c => exact ⟨.clock true, _, _, rfl, rfl, rfl, rfl⟩

theorem exists_downward (s : Process) {p : Pc} (hp : p ≠ .closed) :
    ∃ o q freed, Downward s p o q freed := by
  cases p with
  | opening bus addr =>
    by_cases hnul : 0 ∈ bus
    · exact ⟨.cstringNew none, _, _, if_pos hnul, rfl, rfl, rfl⟩
    · exact ⟨.cstringNew (some ⟨s.fresh, bus, hnul⟩), _, _, if_pos rfl, by simp [Op.exec], rfl, rfl⟩
  | configuring bus addr => exact ⟨.configure bus addr, _, _, if_pos ⟨rfl, rfl⟩, rfl, rfl, rfl⟩
  | creatingUtil bus => exact ⟨.create .util none, _, _, rfl, rfl, rfl, rfl⟩
  | creatingCrypt bus util => exact ⟨.create .crypt none, _, _, rfl, rfl, rfl, rfl⟩
  | destroyingUtil bus util => exact ⟨.destroy ⟨.util, util⟩, _, _, if_pos rfl, rfl, rfl, rfl⟩
  | running h k r => exact exists_downward_run s h k r
  | live h => exact ⟨.enterDrop, _, _, rfl, rfl, rfl, rfl⟩
  | dropping h d r =>
    cases r with
    | crypt => exact ⟨.destroy (h.inst .crypt), _, _, if_pos rfl, rfl, rfl, rfl⟩
    | util => exact ⟨.destroy (h.inst .util), _, _, if_pos rfl, rfl, rfl, rfl⟩
    | flag => exact ⟨.storeOpen, _, _, rfl, rfl, rfl, rfl⟩
    | bus => exact ⟨.freeBus, _, _, rfl, rfl, rfl, rfl⟩
  | errArm built => exact ⟨.storeOpen, _, _, rfl, rfl, rfl, rfl⟩
  | closed => exact absurd rfl hp

/-- A session that is not closed has a step of its own that leaves it less to do. -/
theorem exists_step_down {s : Process} {i : Nat} {p : Pc} (hi : s.sessions[i]? = some p)
    (hp : p ≠ .closed) :
    ∃ o t q freed, step s (.op i o) = some t ∧ OpStep s i o t p q freed ∧ q.fuel < p.fuel ∧
      o.issued = [] := by
  obtain ⟨o, q, freed, hdown⟩ := exists_downward s hp
  obtain ⟨t, ht, hop⟩ := exists_opStep hi hdown.next hdown.answer
  have hfuel := hop.edge.fuel
  rw [hdown.credit] at hfuel
  exact ⟨o, t, q, freed, ht, hop, by omega, hdown.issued⟩

/-- **No session is ever stuck, and none goes on for ever**, whatever the others do: its steps
are bounded, and unless it is closed it has a step that leaves it less to do. -/
theorem session_bounded {as : List Act} {s : Process} (h : history as = some s) (i : Nat) :
    as.countP (ownStep i) + fuelOf i s ≤ 19 + (as.map (ownCredit i)).sum ∧
      ∀ p, s.sessions[i]? = some p → p ≠ .closed →
        ∃ o t, step s (.op i o) = some t ∧ fuelOf i t < fuelOf i s := by
  refine ⟨ownSteps_le h i, ?_⟩
  intro p hi hp
  obtain ⟨o, t, q, freed, ht, hop, hlt, _⟩ := exists_step_down hi hp
  refine ⟨o, t, ht, ?_⟩
  rw [fuelOf, fuelOf, hi, hop.session]
  exact hlt

/-- Session 0 of the overlapping opens has made 11 steps. -/
theorem session_bounded_overlappingOpens :
    overlappingOpens.countP (ownStep 0) + fuelOf 0 ((history overlappingOpens).getD init) ≤
      19 + (overlappingOpens.map (ownCredit 0)).sum :=
  (session_bounded (s := (history overlappingOpens).getD init) rfl 0).1

/-! ## Rest -/

/-- Nothing is left: every session is closed, no command is outstanding, no object is alive and
`OPEN` is clear. -/
structure Quiet (s : Process) : Prop where
  sessions : ∀ p ∈ s.sessions, p = .closed
  pending : s.pending = []
  live : s.live = []
  OPEN : s.OPEN = false

/-- What is left to do, by the sessions and by the library. -/
def remaining (s : Process) : Nat := (s.sessions.map Pc.fuel).sum + s.pending.length

theorem Pc.eq_closed_of_fuel {p : Pc} (hp : p.fuel = 0) : p = .closed := by
  cases p with
  | running h k r => cases r <;> cases k <;> cases hp
  | dropping h d r => cases r <;> cases d <;> cases hp
  | closed => rfl
  | _ => cases hp

theorem exists_step_remaining {s : Process} (h : 0 < remaining s) :
    ∃ a t, step s a = some t ∧ t.sessions.length = s.sessions.length ∧
      remaining t < remaining s := by
  by_cases hall : ∀ p ∈ s.sessions, p = .closed
  · -- only the library has something to do
    have hzero : (s.sessions.map Pc.fuel).sum = 0 := by
      apply List.sum_eq_zero_iff_forall_eq_nat.mpr
      intro n hn
      obtain ⟨p, hp, rfl⟩ := List.mem_map.mp hn
      rw [hall p hp]
      rfl
    rw [remaining, hzero, Nat.zero_add, List.length_pos_iff] at h
    obtain ⟨c, hc⟩ := List.exists_mem_of_ne_nil _ h
    refine ⟨.callback c 0, _, if_pos ⟨hc, by decide⟩, rfl, ?_⟩
    have hlen := List.length_erase_of_mem hc
    have hpos := List.length_pos_of_mem hc
    show (s.sessions.map Pc.fuel).sum + (s.pending.erase c).length <
      (s.sessions.map Pc.fuel).sum + s.pending.length
    omega
  · obtain ⟨p, hp, hopen⟩ : ∃ p ∈ s.sessions, p ≠ .closed := by
      by_contra hnone
      exact hall fun p hp => by_contra fun hne => hnone ⟨p, hp, hne⟩
    obtain ⟨i, hi⟩ := List.mem_iff_getElem?.mp hp
    obtain ⟨o, t, q, freed, ht, hop, hlt, hissued⟩ := exists_step_down hi hopen
    refine ⟨.op i o, t, ht, ?_, ?_⟩
    · rw [hop.sessions, List.length_set]
    · have hsum := sum_map_set Pc.fuel hi q
      rw [remaining, remaining, hop.sessions, hop.pending, hissued, List.nil_append]
      omega

/-- Closed sessions own nothing. -/
theorem Consistent.live_eq_nil {s : Process} (hs : Consistent s)
    (h : ∀ p ∈ s.sessions, p = .closed) : s.live = [] := by
  by_contra hne
  obtain ⟨x, hx⟩ := List.exists_mem_of_ne_nil _ hne
  obtain ⟨p, hp, hown⟩ := hs.accounted.exists_owner hx
  rw [h p hp] at hown
  cases hown

theorem quiet_of_remaining {s : Process} (hs : Consistent s) (h : remaining s = 0) : Quiet s := by
  have hsum : (s.sessions.map Pc.fuel).sum = 0 := by
    unfold remaining at h
    omega
  have hpending : s.pending.length = 0 := by
    unfold remaining at h
    omega
  have hclosed : ∀ p ∈ s.sessions, p = .closed := fun p hp =>
    Pc.eq_closed_of_fuel
      (List.sum_eq_zero_iff_forall_eq_nat.mp hsum _ (List.mem_map_of_mem hp))
  refine ⟨hclosed, List.length_eq_zero_iff.mp hpending, hs.live_eq_nil hclosed, ?_⟩
  by_contra hne
  obtain ⟨p, hp, hactive⟩ := hs.openActive ((Bool.not_eq_false _).mp hne)
  rw [hclosed p hp] at hactive
  cases hactive

/-- From every reachable state the process can come to rest with nothing left, without a new
session: also from those where a timeout has left a command behind, or where a stale release has
let two sessions in. -/
theorem exists_quiet {as : List Act} {s : Process} (h : history as = some s) :
    ∃ bs t, history (as ++ bs) = some t ∧ t.sessions.length = s.sessions.length ∧ Quiet t := by
  have hdown : ∀ u, (Consistent u ∧ u.sessions.length = s.sessions.length) → 0 < remaining u →
      ∃ a v, step u a = some v ∧ (Consistent v ∧ v.sessions.length = s.sessions.length) ∧
        remaining v < remaining u := by
    intro u hu hpos
    obtain ⟨a, v, hstep, hlen, hlt⟩ := exists_step_remaining hpos
    exact ⟨a, v, hstep, ⟨hu.1.step hstep, hlen.trans hu.2⟩, hlt⟩
  obtain ⟨bs, t, hexec, ⟨hwf, hlen⟩, hzero⟩ :=
    exists_exec_of_rank hdown ⟨Consistent.of_history h, rfl⟩
  exact ⟨bs, t, exec_append_iff.mpr ⟨s, h, hexec⟩, hlen, quiet_of_remaining hwf hzero⟩

end Trustm
