import Trustm.Session.BusPath

/-!
# Nothing leaks and nothing is freed twice

One thread that opens, calls methods, closes and drops, every step with any outcome. Each
failure point of `open_inner` has its own clean-up (nothing, a manual destroy, `Drop`), and
`OPEN` is released by `Drop`, by the error arm of `open`, or by both.

* `Ledger` compares the `create` and the `destroy` calls of a history with what is alive; it
  holds for every interleaving (`ledger_of_history`).
* `Sequential` describes the histories of one thread. There the second release of a failed
  `open` is harmless (`noStaleRelease_of_sequential`).
* `balance_of_sequential` puts both together.
-/

namespace Trustm

open Run Ownership

/-! ## The ledger of instances -/

def creates (x : Inst) : Act → Bool
  | .op _ (.create w (some n)) => ⟨w, n⟩ == x
  | _ => false

def destroys (x : Inst) : Act → Bool
  | .op _ (.destroy y) => y == x
  | _ => false

/-- Every instance is created once, and then it is alive until it is destroyed. -/
structure Ledger (as : List Act) (s : Process) : Prop where
  unborn : ∀ x, s.fresh ≤ x.number → as.countP (creates x) = 0
  once : ∀ x, as.countP (creates x) ≤ 1
  balance : ∀ x, as.countP (creates x) = as.countP (destroys x) + s.live.count (.inst x)

theorem count_inst_buffers (x : Inst) (bufs : List Nat) :
    (bufs.map Obj.buffer).count (.inst x) = 0 := by
  rw [List.count_eq_zero]
  intro hmem
  obtain ⟨m, _, hm⟩ := List.mem_map.mp hmem
  cases hm

theorem countP_creates_op (x : Inst) (i : Nat) (o : Op) :
    [Act.op i o].countP (creates x) = o.news.count (.inst x) := by
  cases o with
  | create w n => cases n <;> simp [creates, Op.news, List.count_cons, List.countP_cons]
  | cstringNew c => cases c <;> simp [creates, Op.news, CString.obj]
  | enter w bufs => simp [creates, Op.news, count_inst_buffers]
  | _ => simp [creates, Op.news]

theorem countP_destroys_op (x : Inst) (i : Nat) (o : Op) :
    [Act.op i o].countP (destroys x) = o.olds.count (.inst x) := by
  cases o with
  | destroy y => simp [destroys, Op.olds, List.count_cons, List.countP_cons]
  | _ => simp [destroys, Op.olds]

theorem Caller.return_freed (k : Caller) (h : Handle) (r : Result Unit) (x : Inst) :
    (k.return h r).2.count (.inst x) = 0 := by
  unfold Caller.return
  split
  · rfl
  · rfl
  · exact count_inst_buffers x _
  · rfl

/-- The locals that end are buffers and strings. -/
theorem Edge.freed_count {p q : Pc} {o : Op} {freed : List Obj} (h : Edge p o q freed)
    (x : Inst) : freed.count (.inst x) = 0 := by
  cases h
  case reject | pollDone | timeout => exact Caller.return_freed _ _ _ x
  all_goals simp [CString.obj]

namespace Ledger

variable {as : List Act} {s t : Process}

theorem start : Ledger [] init where
  unborn := by simp
  once := by simp
  balance := by simp [init]

theorem op (hs : Ledger as s) (hwf : Consistent s) {i : Nat} {o : Op} {p q : Pc}
    {freed : List Obj} (h : OpStep s i o t p q freed) : Ledger (as ++ [.op i o]) t := by
  have hnew : ∀ x : Inst, o.news.count (.inst x) = 0 ∨
      s.fresh ≤ x.number ∧ x.number < t.fresh ∧ o.news.count (.inst x) = 1 := by
    intro x
    by_cases hmem : Obj.inst x ∈ o.news
    · obtain ⟨hge, hlt⟩ := h.newsFresh _ hmem
      exact .inr ⟨hge, hlt, List.count_eq_one_of_mem h.newsNodup hmem⟩
    · exact .inl (List.count_eq_zero.mpr hmem)
  refine ⟨?_, ?_, ?_⟩
  · intro x hx
    rw [List.countP_append, countP_creates_op, hs.unborn x (h.fresh_le.trans hx)]
    rcases hnew x with hzero | ⟨_, hlt, _⟩
    · rw [hzero]
    · omega
  · intro x
    rw [List.countP_append, countP_creates_op]
    rcases hnew x with hzero | ⟨hge, _, hone⟩
    · rw [hzero]
      exact hs.once x
    · rw [hs.unborn x hge, hone]
  · intro x
    have hbal := hs.balance x
    -- what is destroyed was owned, so it was alive
    have howns := h.edge.balance (.inst x)
    have hle := count_le_claims Pc.owns h.before (.inst x)
    have hlive := hwf.accounted.owned (.inst x)
    have hfreed := h.edge.freed_count x
    rw [List.countP_append, List.countP_append, countP_creates_op, countP_destroys_op, h.live,
      List.count_diff, List.count_append, List.count_append]
    rw [List.count_append] at howns
    omega

/-- An action that is no access of a session changes nothing here. -/
theorem other (hs : Ledger as s) {a : Act} (hcreates : ∀ x, creates x a = false)
    (hdestroys : ∀ x, destroys x a = false) (hlive : t.live = s.live)
    (hfresh : t.fresh = s.fresh) : Ledger (as ++ [a]) t := by
  have hc : ∀ x, (as ++ [a]).countP (creates x) = as.countP (creates x) := by
    intro x
    simp [List.countP_append, hcreates x]
  have hd : ∀ x, (as ++ [a]).countP (destroys x) = as.countP (destroys x) := by
    intro x
    simp [List.countP_append, hdestroys x]
  refine ⟨?_, ?_, ?_⟩
  · intro x hx
    rw [hc]
    exact hs.unborn x (hfresh ▸ hx)
  · intro x
    rw [hc]
    exact hs.once x
  · intro x
    rw [hc, hd, hlive]
    exact hs.balance x

theorem step (hs : Ledger as s) (hwf : Consistent s) {a : Act}
    (h : Trustm.step s a = some t) : Ledger (as ++ [a]) t := by
  cases a with
  | op i o =>
    obtain ⟨p, q, freed, hop⟩ := opStep_of_step h
    exact hs.op hwf hop
  | openRefused =>
    obtain ⟨_, rfl⟩ := openRefused_step h
    exact hs.other (fun _ => rfl) (fun _ => rfl) rfl rfl
  | openSwap bus addr =>
    obtain ⟨_, rfl⟩ := openSwap_step h
    exact hs.other (fun _ => rfl) (fun _ => rfl) rfl rfl
  | callback c st =>
    obtain ⟨_, _, rfl⟩ := callback_step h
    exact hs.other (fun _ => rfl) (fun _ => rfl) rfl rfl

end Ledger

theorem ledger_of_history {as : List Act} {s : Process} (h : history as = some s) :
    Ledger as s := by
  apply exec_induction Ledger.start _ (meets_of_forall fun _ _ _ => trivial) h
  intro bs u a v hu hledger _ hstep
  exact hledger.step (Consistent.of_history hu) hstep

/-! ## One thread -/

/-- No call is in progress. -/
def AtRest (s : Process) : Prop := ∀ p ∈ s.sessions, p.atRest = true

instance : DecidablePred AtRest := fun s =>
  inferInstanceAs (Decidable (∀ p ∈ s.sessions, _))

/-- One thread: it is in one call at a time. Callbacks come at any time. -/
def Sequential (s : Process) : Act → Prop
  | .openRefused | .openSwap _ _ => AtRest s
  | .op i _ => ∀ p ∈ s.sessions.eraseIdx i, p.atRest = true
  | .callback _ _ => True

instance (s : Process) : DecidablePred (Sequential s) := fun a => by
  unfold Sequential
  split <;> infer_instance

/-- One session at a time, and a call in progress whose session is not active any more has left
`OPEN` clear. -/
structure OneThread (s : Process) : Prop where
  single : SingleSession s
  released : ∀ p ∈ s.sessions, p.atRest = false → p.active = false → s.OPEN = false

/-- The second release of a failed `open` finds the flag as the first one left it. -/
theorem OneThread.noStaleRelease {s : Process} (hs : OneThread s) (a : Act) :
    NoStaleRelease s a := by
  unfold NoStaleRelease
  split
  · intro hi
    exact hs.released _ (List.mem_of_getElem? hi) rfl rfl
  · trivial

theorem Edge.not_closed {p q : Pc} {o : Op} {freed : List Obj} (h : Edge p o q freed) :
    p ≠ .closed := by
  cases h <;> simp

theorem Pc.live_or_closed {p : Pc} (h : p.atRest = true) : (∃ hd, p = .live hd) ∨ p = .closed := by
  cases p with
  | live hd => exact .inl ⟨hd, rfl⟩
  | closed => exact .inr rfl
  | _ => cases h

/-- The other sessions of a step of one thread are at rest. -/
theorem Sequential.others {s t : Process} {i : Nat} {o : Op} {p q r : Pc} {freed : List Obj}
    (hseq : Sequential s (.op i o)) (h : OpStep s i o t p q freed) (hr : r ∈ t.sessions) :
    r = q ∨ r.atRest = true := by
  obtain ⟨j, hj⟩ := List.mem_iff_getElem?.mp hr
  by_cases hij : i = j
  · subst hij
    exact .inl (Option.some.inj (hj.symm.trans h.session))
  · rw [h.other hij] at hj
    exact .inr (hseq r (List.mem_eraseIdx_iff_getElem?.mpr ⟨j, fun hji => hij hji.symm, hj⟩))

theorem OneThread.step {s t : Process} {a : Act} (hs : OneThread s) (hseq : Sequential s a)
    (h : Trustm.step s a = some t) : OneThread t := by
  refine ⟨hs.single.step (hs.noStaleRelease a) h, ?_⟩
  cases a with
  | openRefused =>
    obtain ⟨_, rfl⟩ := openRefused_step h
    exact hs.released
  | openSwap bus addr =>
    obtain ⟨_, rfl⟩ := openSwap_step h
    intro p hp hrest hactive
    rcases List.mem_append.mp hp with hp | hp
    · rw [hseq p hp] at hrest
      cases hrest
    · rw [List.mem_singleton.mp hp] at hactive
      cases hactive
  | op i o =>
    obtain ⟨p, q, freed, hop⟩ := opStep_of_step h
    intro r hr hrest hactive
    rcases hseq.others hop hr with rfl | hr
    · rw [hop.OPEN]
      split
      · rfl
      · rename_i ho
        rw [hop.edge.active_eq ho] at hactive
        apply hs.released p hop.mem_before _ hactive
        by_contra hne
        rcases Pc.live_or_closed ((Bool.not_eq_false _).mp hne) with ⟨hd, rfl⟩ | hp
        · cases hactive
        · exact hop.edge.not_closed hp
    · rw [hr] at hrest
      cases hrest
  | callback c st =>
    obtain ⟨_, _, rfl⟩ := callback_step h
    exact hs.released

theorem oneThread_of_sequential {as : List Act} (hseq : Meets step Sequential init as) :
    Always step OneThread init as := by
  apply always_of_step _ _ hseq
  · intro s a t hs ha h
    exact hs.step ha h
  · exact ⟨SingleSession.start, by simp [init]⟩

theorem noStaleRelease_of_sequential {as : List Act} (hseq : Meets step Sequential init as) :
    Meets step NoStaleRelease init as :=
  (oneThread_of_sequential hseq).meets.mono fun _ a h => h.1.noStaleRelease a

/-! ## The balance -/

/-- What a sequence of calls has created and released. -/
structure Balanced (as : List Act) (s : Process) : Prop where
  ledger : Ledger as s
  /-- Once no handle is live, `destroy` was called exactly once for every instance created. -/
  settled : AtRest s → (∀ h, Pc.live h ∉ s.sessions) → ∀ x,
    as.countP (destroys x) = as.countP (creates x)
  /-- Between two calls the instances alive are those of the live handle. -/
  instances : AtRest s → ∀ x, .inst x ∈ s.live ↔
    ∃ h w, Pc.live h ∈ s.sessions ∧ x = h.inst w
  openFlag : AtRest s → (s.OPEN = true ↔ ∃ h, Pc.live h ∈ s.sessions)

/-- What every single step does right. -/
structure CleanStep (s : Process) (a : Act) : Prop where
  /-- `destroy` gets an instance that was created and has not been destroyed. -/
  destroy : ∀ i x, a = .op i (.destroy x) → .inst x ∈ s.live
  /-- So does every call that issues a command, whether it is accepted or not. -/
  accepted : ∀ i c, a = .op i (.issue c) → .inst c.inst ∈ s.live
  rejected : ∀ i x code, a = .op i (.reject x code) → .inst x ∈ s.live
  /-- `AlreadyOpen` leaves everything as it was. -/
  refused : ∀ t, a = .openRefused → step s a = some t → t = s
  /-- At the end of every other failed `open` nothing is open, and `open` can be entered. -/
  failed : ∀ i built t, a = .op i .storeOpen → s.sessions[i]? = some (.errArm built) →
    step s a = some t → AtRest t ∧ (∀ h, Pc.live h ∉ t.sessions) ∧
      ∀ bus addr, ∃ u, step t (.openSwap bus addr) = some u

section

variable {s t : Process}

theorem OneThread.openFlag (hs : OneThread s) (hwf : Consistent s) (hrest : AtRest s) :
    s.OPEN = true ↔ ∃ h, Pc.live h ∈ s.sessions := by
  constructor
  · intro hopen
    obtain ⟨p, hp, hactive⟩ := hwf.openActive hopen
    rcases Pc.live_or_closed (hrest p hp) with ⟨h, rfl⟩ | rfl
    · exact ⟨h, hp⟩
    · cases hactive
  · rintro ⟨h, hp⟩
    apply hs.single.2
    exact List.countP_pos_iff.mpr ⟨_, hp, rfl⟩

theorem Consistent.instances (hs : Consistent s) (hrest : AtRest s) (x : Inst) :
    .inst x ∈ s.live ↔ ∃ h w, Pc.live h ∈ s.sessions ∧ x = h.inst w := by
  constructor
  · intro hlive
    obtain ⟨p, hp, hown⟩ := hs.accounted.exists_owner hlive
    rcases Pc.live_or_closed (hrest p hp) with ⟨h, rfl⟩ | rfl
    · simp only [Pc.owns, Handle.objs, List.mem_cons, List.not_mem_nil, or_false,
        Obj.inst.injEq] at hown
      rcases hown with hcrypt | hutil | hbus
      · exact ⟨h, .crypt, hp, hcrypt⟩
      · exact ⟨h, .util, hp, hutil⟩
      · cases hbus
    · cases hown
  · rintro ⟨h, w, hp, rfl⟩
    obtain ⟨i, hi⟩ := List.mem_iff_getElem?.mp hp
    apply hs.owned_mem_live hi
    exact h.inst_mem_objs w

theorem Edge.destroy_owned {p q : Pc} {x : Inst} {freed : List Obj}
    (h : Edge p (.destroy x) q freed) : .inst x ∈ p.owns := by
  cases h <;> simp [Pc.owns, Handle.objs]

theorem Edge.issue_owned {p q : Pc} {c : Command} {freed : List Obj}
    (h : Edge p (.issue c) q freed) : .inst c.inst ∈ p.owns := by
  cases h
  case issue hd k hinst _ =>
    rw [hinst]
    exact List.mem_append_right _ (hd.inst_mem_objs _)

theorem Edge.reject_owned {p q : Pc} {x : Inst} {code : UInt16} {freed : List Obj}
    (h : Edge p (.reject x code) q freed) : .inst x ∈ p.owns := by
  cases h
  case reject hd k _ => exact List.mem_append_right _ (hd.inst_mem_objs _)

theorem Edge.errArm_inv {built : Bool} {q : Pc} {o : Op} {freed : List Obj}
    (h : Edge (.errArm built) o q freed) : q = .closed := by
  cases h
  rfl

/-- A failed `open` ends with nothing open, and can be followed by another one. -/
theorem OneThread.failed (hs : OneThread s) (hwf : Consistent s) {i : Nat} {built : Bool}
    (hseq : Sequential s (.op i .storeOpen)) (hi : s.sessions[i]? = some (.errArm built))
    (h : Trustm.step s (.op i .storeOpen) = some t) :
    AtRest t ∧ (∀ hd, Pc.live hd ∉ t.sessions) ∧
      ∀ bus addr, ∃ u, Trustm.step t (.openSwap bus addr) = some u := by
  obtain ⟨p, q, freed, hop⟩ := opStep_of_step h
  obtain rfl := Option.some.inj (hi.symm.trans hop.before)
  obtain rfl := hop.edge.errArm_inv
  have hopen : t.OPEN = false := by rw [hop.OPEN, if_pos rfl]
  have hrest : AtRest t := by
    intro r hr
    rcases hseq.others hop hr with rfl | hr
    · rfl
    · exact hr
  refine ⟨hrest, ?_, ?_⟩
  · intro hd hlive
    have hset := ((hs.step hseq h).openFlag (hwf.step h) hrest).mpr ⟨hd, hlive⟩
    rw [hopen] at hset
    cases hset
  · intro bus addr
    simp [Trustm.step, hopen]

theorem OneThread.cleanStep {a : Act} (hs : OneThread s) (hwf : Consistent s)
    (hseq : Sequential s a) (h : Trustm.step s a = some t) : CleanStep s a where
  destroy := by
    rintro i x rfl
    obtain ⟨p, q, freed, hop⟩ := opStep_of_step h
    exact hwf.owned_mem_live hop.before hop.edge.destroy_owned
  accepted := by
    rintro i c rfl
    obtain ⟨p, q, freed, hop⟩ := opStep_of_step h
    exact hwf.owned_mem_live hop.before hop.edge.issue_owned
  rejected := by
    rintro i x code rfl
    obtain ⟨p, q, freed, hop⟩ := opStep_of_step h
    exact hwf.owned_mem_live hop.before hop.edge.reject_owned
  refused := by
    rintro u rfl hu
    exact (openRefused_step hu).2
  failed := by
    rintro i built u rfl hi hu
    exact hs.failed hwf hseq hi hu

end

/-- **Resources are balanced in every sequence of calls by one thread.** -/
theorem balance_of_sequential {as : List Act} {s : Process} (h : history as = some s)
    (hseq : Meets step Sequential init as) : Balanced as s ∧ Meets step CleanStep init as := by
  have hone := oneThread_of_sequential hseq
  have hwf := Consistent.of_history h
  have hledger := ledger_of_history h
  constructor
  · refine ⟨hledger, ?_, hwf.instances, (hone.last h).openFlag hwf⟩
    intro hrest hnone x
    have hgone : .inst x ∉ s.live := by
      intro hlive
      obtain ⟨hd, _, hmem, _⟩ := (hwf.instances hrest x).mp hlive
      exact hnone hd hmem
    rw [hledger.balance x, List.count_eq_zero.mpr hgone, Nat.add_zero]
  · apply ((hone.and (Consistent.always as)).meets.and hseq).mono
    rintro u a ⟨⟨⟨hone, hwf⟩, t, ht, _⟩, ha⟩
    exact hone.cleanStep hwf ha ht

/-! ## A thread that tries again -/

/-- An `open` whose `open_application` is rejected, one that succeeds, and one that finds the
handle live. -/
def tryAgain : List Act :=
  openDefault 0 0 ++
    [.op 0 .storeBusy, .op 0 (.reject ⟨.util, 1⟩ 0x0102), .op 0 (.destroy ⟨.crypt, 2⟩),
      .op 0 (.destroy ⟨.util, 1⟩), .op 0 .storeOpen, .op 0 .freeBus, .op 0 .storeOpen] ++
    openDefault 1 3 ++
    [.op 1 .storeBusy, .op 1 (.issue ⟨6, ⟨.util, 4⟩, []⟩), .op 1 .callReturns,
      .callback ⟨6, ⟨.util, 4⟩, []⟩ 0, .op 1 (.load 0), .openRefused]

theorem balance_of_sequential_tryAgain :
    ∃ s, history tryAgain = some s ∧ s.live = [.inst ⟨.crypt, 5⟩, .inst ⟨.util, 4⟩, .cstring 3] ∧
      Balanced tryAgain s ∧ Meets step CleanStep init tryAgain :=
  ⟨_, rfl, rfl, balance_of_sequential rfl (by decide)⟩

end Trustm
