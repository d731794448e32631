import Trustm.Session.Completion

/-!
# Whose completion a run returns

`STATUS` is one word for all commands: a callback does not say which command it completes.
A `run` that gives up leaves its command with the library, and the callback of that command
may arrive in the wait of a later `run`.

* `Attributed` says of a history that every status a `run` returned was delivered by the
  callback of the command this `run` issued.
* `QuietStart` is what the history must add: no earlier command is outstanding when a `run`
  starts.
* `attributed_of_quietStart`: such histories are attributed.
* `not_attributed_lateCallback`: a verification that returns `Ok` by the callback of a
  read that has timed out before.
-/

namespace Trustm

open Run

/-! ## The history's view -/

/-- The command of the latest call of session `i` that the library accepted. -/
def lastIssue (i : Nat) (as : List Act) : Option Command :=
  as.foldl (fun last a => match a with
    | .op j (.issue c) => if j = i then some c else last
    | _ => last) none

/-- The callback that wrote the status word last; `none` after a store of `BUSY`. -/
def lastStore (as : List Act) : Option (Command × UInt16) :=
  as.foldl (fun last a => match a with
    | .callback c st => some (c, st)
    | .op _ .storeBusy => none
    | _ => last) none

/-- Every poll that ends a `run` returns the status that the callback of this `run`'s own
command has delivered. -/
def Attributed (as : List Act) : Prop :=
  ∀ pre i st post s r, as = pre ++ .op i (.load st) :: post → history pre = some s →
    runResult s i (.load st) = some r →
    r = Error.fromStatus st ∧ ∃ c, lastIssue i pre = some c ∧ lastStore pre = some (c, st)

/-- A `run` stores `BUSY` only when the library has completed every earlier command. -/
def QuietStart (s : Process) : Act → Prop
  | .op _ .storeBusy => s.pending = []
  | _ => True

instance (s : Process) : DecidablePred (QuietStart s) := fun a => by
  unfold QuietStart
  split <;> infer_instance

section

variable {i : Nat} {as : List Act} {a : Act}

@[simp] theorem lastIssue_issue (c : Command) :
    lastIssue i (as ++ [.op i (.issue c)]) = some c := by
  simp [lastIssue]

theorem lastIssue_snoc (ha : ∀ c, a ≠ .op i (.issue c)) :
    lastIssue i (as ++ [a]) = lastIssue i as := by
  rw [lastIssue, List.foldl_append, List.foldl_cons, List.foldl_nil]
  split
  · rename_i j c
    have hji : j ≠ i := by
      rintro rfl
      exact ha c rfl
    rw [if_neg hji, lastIssue]
  · rfl

@[simp] theorem lastStore_callback (c : Command) (st : UInt16) :
    lastStore (as ++ [.callback c st]) = some (c, st) := by
  simp [lastStore]

theorem lastStore_snoc (hcb : ∀ c st, a ≠ .callback c st) (hbusy : ∀ j, a ≠ .op j .storeBusy) :
    lastStore (as ++ [a]) = lastStore as := by
  rw [lastStore, List.foldl_append, List.foldl_cons, List.foldl_nil]
  split
  · exact absurd rfl (hcb _ _)
  · exact absurd rfl (hbusy _)
  · rfl

end

/-! ## Waiting for the own command -/

/-- What holds in a history whose runs start quietly. -/
structure Waiting (as : List Act) (s : Process) : Prop where
  issued : ∀ (i : Nat) (p : Pc) c, s.sessions[i]? = some p → p.command? = some c →
    lastIssue i as = some c
  /-- Nothing is outstanding while the call is on its way. -/
  call : ∀ (i : Nat) h k, s.sessions[i]? = some (Pc.running h k .call) →
    s.pending = [] ∧ s.STATUS = busyStatus
  /-- In the loop only the own command is outstanding, and only its status can be read. -/
  wait : ∀ (i : Nat) (p : Pc) c, s.sessions[i]? = some p → p.command? = some c →
    (∀ d ∈ s.pending, d = c) ∧ (s.STATUS = busyStatus ∨ lastStore as = some (c, s.STATUS))

namespace Waiting

variable {as : List Act} {s t : Process} {a : Act}

theorem start : Waiting [] init where
  issued := by simp [init]
  call := by simp [init]
  wait := by simp [init]

theorem issued_step (hs : Waiting as s) (h : step s a = some t) {j : Nat} {q : Pc} {c : Command}
    (hq : t.sessions[j]? = some q) (hc : q.command? = some c) :
    lastIssue j (as ++ [a]) = some c := by
  by_cases hissue : ∃ d, a = .op j (.issue d)
  · obtain ⟨d, rfl⟩ := hissue
    obtain ⟨p, r, freed, hop⟩ := opStep_of_step h
    obtain ⟨hd, k, _, rfl⟩ := hop.edge.issue_inv
    obtain rfl := Option.some.inj (hop.session.symm.trans hq)
    rw [lastIssue_issue]
    exact hc
  · rw [lastIssue_snoc fun d hd => hissue ⟨d, hd⟩]
    rcases command_before h hq hc with rfl | ⟨p, hp, hpc⟩
    · exact absurd ⟨c, rfl⟩ hissue
    · exact hs.issued j p c hp hpc

theorem call_step (hs : Waiting as s) (hone : OneHandle s) (hquiet : QuietStart s a)
    (h : step s a = some t) {j : Nat} {hd : Handle} {k : Caller}
    (hq : t.sessions[j]? = some (.running hd k .call)) :
    t.pending = [] ∧ t.STATUS = busyStatus := by
  rcases call_before h hq with rfl | hp
  · obtain ⟨p, r, freed, hop⟩ := opStep_of_step h
    exact ⟨by rw [hop.pending]; exact hquiet, by rw [hop.STATUS, if_pos rfl]⟩
  · obtain ⟨hpending, hSTATUS⟩ := hs.call j hd k hp
    cases a with
    | openRefused =>
      obtain ⟨_, rfl⟩ := openRefused_step h
      exact ⟨hpending, hSTATUS⟩
    | openSwap bus addr =>
      obtain ⟨_, rfl⟩ := openSwap_step h
      exact ⟨hpending, hSTATUS⟩
    | callback d st =>
      obtain ⟨hd, _⟩ := callback_step h
      rw [hpending] at hd
      cases hd
    | op i o =>
      obtain ⟨p, r, freed, hop⟩ := opStep_of_step h
      refine ⟨?_, ?_⟩
      · rw [hop.pending, hpending, List.append_nil]
        by_contra hne
        obtain ⟨c, hc⟩ := List.exists_mem_of_ne_nil _ hne
        obtain rfl := Op.eq_issue_of_mem hc
        obtain ⟨hd', k', rfl, rfl⟩ := hop.edge.issue_inv
        -- only the session itself has a handle, and it has not moved
        obtain rfl := hone.unique hop.before hp rfl rfl
        cases hop.session.symm.trans hq
      · rw [hop.STATUS]
        split
        · rfl
        · exact hSTATUS

theorem wait_step (hs : Waiting as s) (hone : OneHandle s) (h : step s a = some t) {j : Nat}
    {q : Pc} {c : Command} (hq : t.sessions[j]? = some q) (hc : q.command? = some c) :
    (∀ d ∈ t.pending, d = c) ∧
      (t.STATUS = busyStatus ∨ lastStore (as ++ [a]) = some (c, t.STATUS)) := by
  rcases command_before h hq hc with rfl | ⟨p, hp, hpc⟩
  · -- the command has just been accepted, with nothing else outstanding
    obtain ⟨r, r', freed, hop⟩ := opStep_of_step h
    obtain ⟨hd, k, rfl, _⟩ := hop.edge.issue_inv
    obtain ⟨hpending, hSTATUS⟩ := hs.call j hd k hop.before
    refine ⟨?_, .inl (by rw [hop.STATUS]; exact hSTATUS)⟩
    rw [hop.pending, hpending]
    exact fun d hd => List.mem_singleton.mp hd
  · obtain ⟨hpending, hSTATUS⟩ := hs.wait j p c hp hpc
    cases a with
    | openRefused =>
      obtain ⟨_, rfl⟩ := openRefused_step h
      refine ⟨hpending, ?_⟩
      rw [lastStore_snoc (by simp) (by simp)]
      exact hSTATUS
    | openSwap bus addr =>
      obtain ⟨_, rfl⟩ := openSwap_step h
      refine ⟨hpending, ?_⟩
      rw [lastStore_snoc (by simp) (by simp)]
      exact hSTATUS
    | callback d st =>
      obtain ⟨hd, _, rfl⟩ := callback_step h
      obtain rfl := hpending d hd
      exact ⟨fun e he => hpending e (List.mem_of_mem_erase he), .inr (lastStore_callback d st)⟩
    | op i o =>
      obtain ⟨r, r', freed, hop⟩ := opStep_of_step h
      by_cases ho : o = .storeBusy
      · subst ho
        exact ⟨by rw [hop.pending]; exact hpending, .inl (by rw [hop.STATUS, if_pos rfl])⟩
      · have hsame : t.STATUS = s.STATUS := by
          rw [hop.STATUS, if_neg ho]
        rw [hsame, lastStore_snoc (by simp) (by simp [ho])]
        refine ⟨?_, hSTATUS⟩
        rw [hop.pending]
        intro d hd
        rcases List.mem_append.mp hd with hd | hd
        · -- only the session itself has a handle, and it is past its call
          obtain rfl := Op.eq_issue_of_mem hd
          obtain ⟨hd', k', rfl, _⟩ := hop.edge.issue_inv
          obtain rfl := hone.unique hop.before hp rfl (Pc.hasHandle_of_command hpc)
          obtain rfl := Option.some.inj (hop.before.symm.trans hp)
          cases hpc
        · exact hpending d hd

theorem of_quietStart (h : history as = some s) (hone : Always Trustm.step OneHandle init as)
    (hquiet : Meets Trustm.step QuietStart init as) : Waiting as s := by
  refine exec_induction start ?_ (hone.meets.and hquiet) h
  intro bs u a v _ hu hC hstep
  obtain ⟨⟨hone, _⟩, hquiet⟩ := hC
  exact ⟨fun i p c => hu.issued_step hstep, fun i h k => hu.call_step hone hquiet hstep,
    fun i p c => hu.wait_step hone hstep⟩

end Waiting

/-- **A quiet start gives every status to its own command.** -/
theorem attributed_of_quietStart {as : List Act} {t : Process} (h : history as = some t)
    (hone : Always step OneHandle init as) (hquiet : Meets step QuietStart init as) :
    Attributed as := by
  rintro pre i st post s r rfl hs hr
  obtain ⟨hd, k, c, hp, hst, rfl⟩ := runResult_load hr
  refine ⟨rfl, c, ?_⟩
  have hwait := Waiting.of_quietStart hs hone.prefix hquiet.prefix
  obtain ⟨u, hu, hexec⟩ := exec_append_iff.mp h
  obtain rfl : s = u := Option.some.inj (hs.symm.trans hu)
  obtain ⟨v, hv, _⟩ := exec_cons_iff.mp hexec
  obtain ⟨p, q, freed, hop⟩ := opStep_of_step hv
  refine ⟨hwait.issued i _ c hp rfl, ?_⟩
  obtain ⟨_, hbusy | hstore⟩ := hwait.wait i _ c hp rfl
  · exact absurd ((hop.load st rfl).trans hbusy) hst
  · rw [hop.load st rfl]
    exact hstore

/-- In particular `Ok` means that the own command has completed with success. -/
theorem Attributed.success {as pre post : List Act} {s : Process} {i : Nat} {st : UInt16}
    (h : Attributed as) (has : as = pre ++ .op i (.load st) :: post)
    (hs : history pre = some s) (hok : runResult s i (.load st) = some (.ok ())) :
    ∃ c, lastIssue i pre = some c ∧ lastStore pre = some (c, 0) := by
  obtain ⟨hr, c, hissue, hstore⟩ := h pre i st post s _ has hs hok
  rw [(fromStatus_eq_ok_iff st).mp hr.symm] at hstore
  exact ⟨c, hissue, hstore⟩

/-! ## The condition is needed -/

/-- How a late callback of `d` gets into the wait of a `run` that is about to store `BUSY`. -/
def misread (i : Nat) (c d : Command) : List Act :=
  [.op i .storeBusy, .op i (.issue c), .op i .callReturns, .callback d 0]

section

variable {s : Process} {i : Nat} {hd : Handle} {k : Caller} {d : Command}

/-- The command the `run` issues when the library accepts it. -/
def ownCommand (s : Process) (hd : Handle) (k : Caller) : Command :=
  ⟨s.fresh, hd.inst k.which, k.bufs⟩

theorem exec_misread (hi : s.sessions[i]? = some (.running hd k .storeBusy))
    (hpending : d ∈ s.pending) :
    ∃ t, exec step s (misread i (ownCommand s hd k) d) = some t ∧
      t.sessions[i]? = some (.running hd k (.poll (ownCommand s hd k))) ∧ t.STATUS = 0 := by
  obtain ⟨s₁, h₁, hop₁⟩ := exists_opStep hi (o := .storeBusy) rfl rfl
  have hfresh : s₁.fresh = s.fresh := hop₁.fresh
  obtain ⟨s₂, h₂, hop₂⟩ := exists_opStep hop₁.session (Pc.next_issue hd k s.fresh)
    (by simp [Op.exec, hfresh])
  obtain ⟨s₃, h₃, hop₃⟩ := exists_opStep hop₂.session (o := .callReturns) rfl rfl
  have hmem : d ∈ s₃.pending := by
    rw [hop₃.pending, hop₂.pending, hop₁.pending]
    simp [hpending]
  obtain ⟨s₄, h₄⟩ : ∃ t, step s₃ (.callback d 0) = some t := ⟨_, if_pos ⟨hmem, by decide⟩⟩
  obtain ⟨_, _, rfl⟩ := callback_step h₄
  refine ⟨{ s₃ with STATUS := 0, pending := s₃.pending.erase d }, ?_, hop₃.session, rfl⟩
  simp only [misread, ownCommand, exec, h₁, h₂, h₃, h₄, Option.bind_some]

/-- Where the condition fails, the library can make the history a misattributed one. -/
theorem not_attributed_of_outstanding {as : List Act} (h : history as = some s)
    (hone : Always step OneHandle init as)
    (hi : s.sessions[i]? = some (.running hd k .storeBusy)) (hpending : d ∈ s.pending) :
    ∃ bs t, history (as ++ bs) = some t ∧ Always step OneHandle init (as ++ bs) ∧
      ¬ Attributed (as ++ bs) := by
  obtain ⟨t, hexec, hpoll, hSTATUS⟩ := exec_misread hi hpending
  obtain ⟨u, hload, _⟩ := exists_opStep hpoll (o := .load 0) rfl (by simp [Op.exec, hSTATUS])
  have hlast : history (as ++ misread i (ownCommand s hd k) d) = some t :=
    exec_append_iff.mpr ⟨s, h, hexec⟩
  refine ⟨misread i (ownCommand s hd k) d ++ [.op i (.load 0)], u, ?_, ?_, ?_⟩
  · rw [← List.append_assoc]
    exact exec_snoc_iff.mpr ⟨t, hlast, hload⟩
  · refine hone.append h (always_of_step (fun _ _ _ hs ha h => hs.step ha h) (hone.last h) ?_)
    exact meets_of_forall (by simp [misread])
  · -- the latest command has a new number, so `d` is another one
    intro hattributed
    obtain ⟨_, c, hissue, hstore⟩ := hattributed (as ++ misread i (ownCommand s hd k) d) i 0 [] t _
      (by rw [List.append_assoc]) hlast (runResult_poll hpoll (by decide))
    have hc : lastIssue i (as ++ misread i (ownCommand s hd k) d) =
        some (ownCommand s hd k) := by
      simp [lastIssue, misread]
    have hd' : lastStore (as ++ misread i (ownCommand s hd k) d) = some (d, 0) := by
      simp [lastStore, misread]
    obtain rfl := Option.some.inj (hc.symm.trans hissue)
    have hsame : d = ownCommand s hd k :=
      congrArg Prod.fst (Option.some.inj (hd'.symm.trans hstore))
    have hold := (Consistent.of_history h).pendingOld d hpending
    rw [hsame] at hold
    exact Nat.lt_irrefl _ hold

end

/-! ## Two commands of one handle -/

/-- `open_default` by session 0, with its `open_application` completed. -/
def openedDefault : List Act :=
  openDefault 0 0 ++
    [.op 0 .storeBusy, .op 0 (.issue ⟨3, ⟨.util, 1⟩, []⟩), .op 0 .callReturns,
      .callback ⟨3, ⟨.util, 1⟩, []⟩ 0, .op 0 (.load 0)]

/-- `read_data` passes its buffer and its length. -/
def readCommand : Command := ⟨6, ⟨.util, 1⟩, [4, 5]⟩

/-- `ecdsa_verify` passes digest, signature, key and the record that describes the key. -/
def verifyCommand : Command := ⟨11, ⟨.crypt, 2⟩, [7, 8, 9, 10]⟩

/-- A method called on session 0 until its command `c` is accepted and the call returns. -/
def enterAndCall (c : Command) : List Act :=
  [.op 0 (.enter c.inst.which c.bufs), .op 0 .storeBusy, .op 0 (.issue c), .op 0 .callReturns]

/-- A read that completes, and then a verification that the chip refuses. -/
def readThenVerify : List Act :=
  openedDefault ++ enterAndCall readCommand ++
    [.callback readCommand 0, .op 0 (.load 0)] ++ enterAndCall verifyCommand ++
    [.callback verifyCommand 0x802C, .op 0 (.load 0x802C)]

theorem attributed_of_quietStart_verify : Attributed readThenVerify :=
  attributed_of_quietStart (t := (history readThenVerify).getD init) rfl (by decide) (by decide)

/-- A read that times out; its callback comes in the wait of the verification. -/
def lateCallback : List Act :=
  openedDefault ++ enterAndCall readCommand ++
    [.op 0 (.load busyStatus), .op 0 (.clock true)] ++ enterAndCall verifyCommand ++
    [.callback readCommand 0, .op 0 (.load 0)]

/-- The verification returns `Ok`, and its command has not completed. -/
theorem not_attributed_lateCallback :
    (history lateCallback).map (fun s => s.pending) = some [verifyCommand] ∧
      (history lateCallback.dropLast).bind (fun s => runResult s 0 (.load 0)) = some (.ok ()) ∧
      Always step OneHandle init lateCallback ∧ ¬ Attributed lateCallback := by
  refine ⟨by decide, by decide, by decide, fun h => ?_⟩
  obtain ⟨_, c, hissue, hstore⟩ := h lateCallback.dropLast 0 0 [] _ _ rfl rfl rfl
  have hverify : verifyCommand = c := Option.some.inj hissue
  have hread : (readCommand, (0 : UInt16)) = (c, 0) := Option.some.inj hstore
  have hsame : readCommand = verifyCommand := (congrArg Prod.fst hread).trans hverify.symm
  exact absurd hsame (by decide)

end Trustm
