import Trustm.Session.Process

/-!
# The control flow of a session

`Edge p o q freed` lists the accesses a session can make, where they lead and which locals end
on the way, with the guards of the source (`edge_of_next`). The lemmas after it say what an
access does to each view of a program counter: what the session owns, whether it is active,
its handle, its `run` and the command of this `run`. The other modules use these and unfold
neither `RunPc.next` nor `Pc.next`.
-/

namespace Trustm

/-! ## Views of a program counter -/

/-- The session is active: from the swap to the first `OPEN.store(false)` that its own `Drop`,
or its own error arm when no handle was built, performs. -/
def Pc.active : Pc → Bool
  | .dropping _ _ .bus | .errArm true | .closed => false
  | _ => true

@[simp] theorem Pc.active_errArm_true : (Pc.errArm true).active = false := rfl

/-- The handle of a session whose handle is live: in the hands of its owner, or in a call that
has borrowed it. -/
def Pc.handle? : Pc → Option Handle
  | .running h _ _ | .live h => some h
  | _ => none

def Pc.hasHandle (p : Pc) : Bool := p.handle?.isSome

/-- Inside `run`, after its store of `BUSY`. -/
def Pc.midRun : Pc → Bool
  | .running _ _ .storeBusy => false
  | .running _ _ _ => true
  | _ => false

/-- What the `run` in progress returns by this access. -/
def Pc.runResult (p : Pc) (o : Op) : Option (Result Unit) :=
  match p with
  | .running h k r => (r.next (h.inst k.which) k.bufs o).bind Sum.getRight?
  | _ => none

/-- The command issued by the `run` in progress. -/
def Pc.command? : Pc → Option Command
  | .running _ _ (.inCall c) | .running _ _ (.poll c) | .running _ _ (.check c) => some c
  | _ => none

/-- No call is in progress: the handle waits for its owner or is gone. -/
def Pc.atRest : Pc → Bool
  | .live _ | .closed => true
  | _ => false

def Handle.objs (h : Handle) : List Obj :=
  [.inst (h.inst .crypt), .inst (h.inst .util), h.bus.obj]

/-- The objects the session's locals, borrows and handle keep alive. -/
def Pc.owns : Pc → List Obj
  | .opening _ _ | .errArm _ | .closed => []
  | .configuring bus _ | .creatingUtil bus => [bus.obj]
  | .creatingCrypt bus util | .destroyingUtil bus util => [.inst ⟨.util, util⟩, bus.obj]
  | .running h k _ => k.bufs.map .buffer ++ h.objs
  | .live h | .dropping h _ .crypt => h.objs
  | .dropping h _ .util => [.inst (h.inst .util), h.bus.obj]
  | .dropping h _ .flag | .dropping h _ .bus => [h.bus.obj]

/-- The objects an access brings to life. -/
def Op.news : Op → List Obj
  | .cstringNew (some c) => [c.obj]
  | .create w (some n) => [.inst ⟨w, n⟩]
  | .enter _ bufs => bufs.map .buffer
  | _ => []

/-- The objects an access destroys. -/
def Op.olds : Op → List Obj
  | .destroy x => [.inst x]
  | _ => []

/-- What an access makes of the bus pointer of the C side. -/
def Op.path : Op → BusPath → BusPath
  | .configure dev _, b => if dev.first ≠ 0 then .cstring dev.number else b
  | _, b => b

/-- The commands an access hands to the library. -/
def Op.issued : Op → List Command
  | .issue c => [c]
  | _ => []

theorem Op.eq_issue_of_mem {o : Op} {c : Command} (h : c ∈ o.issued) : o = .issue c := by
  cases o with
  | issue d => rw [List.mem_singleton.mp h]
  | _ => cases h

/-! ## Control flow -/

/-- The accesses a session can make, and where they lead. -/
inductive Edge : Pc → Op → Pc → List Obj → Prop
  | cstringNul {bus addr} (hnul : 0 ∈ bus) :
      Edge (.opening bus addr) (.cstringNew none) (.errArm false) []
  | cstringNew {c addr} :
      Edge (.opening c.bytes addr) (.cstringNew (some c)) (.configuring c addr) []
  | configure {bus addr} :
      Edge (.configuring bus addr) (.configure bus addr) (.creatingUtil bus) []
  | utilNull {bus} : Edge (.creatingUtil bus) (.create .util none) (.errArm false) [bus.obj]
  | util {bus n} : Edge (.creatingUtil bus) (.create .util (some n)) (.creatingCrypt bus n) []
  | cryptNull {bus util} :
      Edge (.creatingCrypt bus util) (.create .crypt none) (.destroyingUtil bus util) []
  | crypt {bus util n} :
      Edge (.creatingCrypt bus util) (.create .crypt (some n))
        (.running ⟨util, n, bus⟩ .openInner .storeBusy) []
  | destroyUtil {bus util} :
      Edge (.destroyingUtil bus util) (.destroy ⟨.util, util⟩) (.errArm false) [bus.obj]
  | storeBusy {h k} : Edge (.running h k .storeBusy) .storeBusy (.running h k .call) []
  | issue {h k c} (hinst : c.inst = h.inst k.which) (hbufs : c.bufs = k.bufs) :
      Edge (.running h k .call) (.issue c) (.running h k (.inCall c)) []
  | reject {h k code} (hcode : Error.fromStatus code ≠ .ok ()) :
      Edge (.running h k .call) (.reject (h.inst k.which) code)
        (k.return h (Error.fromStatus code)).1 (k.return h (Error.fromStatus code)).2
  | callReturns {h k c} :
      Edge (.running h k (.inCall c)) .callReturns (.running h k (.poll c)) []
  | pollBusy {h k c} :
      Edge (.running h k (.poll c)) (.load busyStatus) (.running h k (.check c)) []
  | pollDone {h k c st} (hst : st ≠ busyStatus) :
      Edge (.running h k (.poll c)) (.load st) (k.return h (Error.fromStatus st)).1
        (k.return h (Error.fromStatus st)).2
  | timeout {h k c} :
      Edge (.running h k (.check c)) (.clock true) (k.return h (.error .timeout)).1
        (k.return h (.error .timeout)).2
  | again {h k c} : Edge (.running h k (.check c)) (.clock false) (.running h k (.poll c)) []
  | enter {h w bufs} :
      Edge (.live h) (.enter w bufs) (.running h (.method w bufs) .storeBusy) []
  | enterClose {h} : Edge (.live h) .enterClose (.running h .close .storeBusy) []
  | enterDrop {h} : Edge (.live h) .enterDrop (.dropping h .owner .crypt) []
  | dropCrypt {h d} :
      Edge (.dropping h d .crypt) (.destroy (h.inst .crypt)) (.dropping h d .util) []
  | dropUtil {h d} : Edge (.dropping h d .util) (.destroy (h.inst .util)) (.dropping h d .flag) []
  | dropFlag {h d} : Edge (.dropping h d .flag) .storeOpen (.dropping h d .bus) []
  | dropBus {h d} : Edge (.dropping h d .bus) .freeBus d.return [h.bus.obj]
  | errArm {built} : Edge (.errArm built) .storeOpen .closed []

theorem edge_of_runNext {h : Handle} {k : Caller} {r : RunPc} {o : Op} {next : RunPc ⊕ Result Unit}
    (hr : r.next (h.inst k.which) k.bufs o = some next) :
    (∃ r', next = .inl r' ∧ Edge (.running h k r) o (.running h k r') []) ∨
      ∃ result, next = .inr result ∧
        Edge (.running h k r) o (k.return h result).1 (k.return h result).2 := by
  unfold RunPc.next at hr
  split at hr
  · cases hr
    exact .inl ⟨_, rfl, .storeBusy⟩
  · split at hr
    · rename_i hguard
      cases hr
      exact .inl ⟨_, rfl, .issue hguard.1 hguard.2⟩
    · cases hr
  · split at hr
    · rename_i hguard
      obtain ⟨rfl, hcode⟩ := hguard
      cases hr
      exact .inr ⟨_, rfl, .reject hcode⟩
    · cases hr
  · cases hr
    exact .inl ⟨_, rfl, .callReturns⟩
  · split at hr
    · rename_i hst
      cases hr
      exact .inr ⟨_, rfl, .pollDone fun he => hst ((toUInt32_eq_busy_iff _).mpr he)⟩
    · rename_i hst
      obtain rfl := (toUInt32_eq_busy_iff _).mp (not_not.mp hst)
      cases hr
      exact .inl ⟨_, rfl, .pollBusy⟩
  · cases hr
    exact .inr ⟨_, rfl, .timeout⟩
  · cases hr
    exact .inl ⟨_, rfl, .again⟩
  · cases hr

theorem edge_of_next {p q : Pc} {o : Op} {freed : List Obj} (h : p.next o = some (q, freed)) :
    Edge p o q freed := by
  unfold Pc.next at h
  split at h
  case h_3 => -- configure
    split at h
    · rename_i hguard
      obtain ⟨rfl, rfl⟩ := hguard
      cases h
      exact .configure
    · cases h
  case h_9 => -- run
    obtain ⟨next, hnext, hq⟩ := Option.map_eq_some_iff.mp h
    rcases edge_of_runNext hnext with ⟨r', rfl, hedge⟩ | ⟨result, rfl, hedge⟩
    · cases hq
      exact hedge
    · obtain rfl : _ = q := congrArg Prod.fst hq
      obtain rfl : _ = freed := congrArg Prod.snd hq
      exact hedge
  all_goals try split at h
  all_goals try cases h
  all_goals subst_vars
  all_goals first
    | exact .cstringNul ‹_›
    | constructor

/-! ## What an edge preserves -/

/-- `run`'s caller gives up the pointers of its command, or keeps what it had. -/
theorem Caller.return_balance (k : Caller) (h : Handle) (r : Result Unit) (x : Obj) :
    (k.bufs.map Obj.buffer ++ h.objs).count x =
      (k.return h r).1.owns.count x + (k.return h r).2.count x := by
  unfold Caller.return
  split <;> simp [Caller.bufs, Pc.owns, Nat.add_comm]

/-- A session owns what it created and has neither destroyed nor freed. -/
theorem Edge.balance {p q : Pc} {o : Op} {freed : List Obj} (h : Edge p o q freed) (x : Obj) :
    p.owns.count x + o.news.count x = q.owns.count x + (o.olds ++ freed).count x := by
  cases h
  case reject | pollDone | timeout => exact Caller.return_balance _ _ _ _
  case dropBus d => cases d <;> simp [Pc.owns, Op.news, Op.olds, Dropper.return]
  all_goals simp only [Pc.owns, Handle.objs, Handle.inst, Op.news, Op.olds, Caller.bufs,
    List.map_nil, List.count_append, List.count_cons, List.count_nil, List.nil_append,
    List.append_nil]
  all_goals omega

theorem Caller.return_command (k : Caller) (h : Handle) (r : Result Unit) :
    (k.return h r).1.command? = none := by
  unfold Caller.return
  split <;> rfl

theorem Caller.return_active (k : Caller) (h : Handle) (r : Result Unit) :
    (k.return h r).1.active = true := by
  unfold Caller.return
  split <;> rfl

/-- Only the release of `OPEN` ends the activity of a session. -/
theorem Edge.active_eq {p q : Pc} {o : Op} {freed : List Obj} (h : Edge p o q freed)
    (ho : o ≠ .storeOpen) : q.active = p.active := by
  cases h
  case reject | pollDone | timeout => exact Caller.return_active _ _ _
  case dropBus d => cases d <;> rfl
  case dropFlag => exact absurd rfl ho
  case errArm => exact absurd rfl ho
  all_goals rfl

/-- A session that releases `OPEN` was active, or its own `Drop` has released it before. -/
theorem Edge.release {p q : Pc} {freed : List Obj} (h : Edge p .storeOpen q freed) :
    q.active = false ∧ (p.active = true ∨ p = .errArm true) := by
  cases h
  case dropFlag => exact ⟨rfl, .inl rfl⟩
  case errArm built =>
    cases built
    · exact ⟨rfl, .inl rfl⟩
    · exact ⟨rfl, .inr rfl⟩

/-- A handle is built by the creation of its second instance, and by nothing else. -/
theorem Edge.handle {p q : Pc} {o : Op} {freed : List Obj} (h : Edge p o q freed)
    (hq : q.hasHandle = true) :
    p.hasHandle = true ∨
      ∃ bus util n, p = .creatingCrypt bus util ∧ o = .create .crypt (some n) := by
  cases h
  case crypt bus util n => exact .inr ⟨bus, util, n, rfl, rfl⟩
  case dropBus d => cases d <;> cases hq
  all_goals first
    | exact .inl rfl
    | cases hq

/-! ## The accesses of `run` -/

theorem Edge.storeBusy_inv {p q : Pc} {freed : List Obj} (h : Edge p .storeBusy q freed) :
    ∃ h k, p = .running h k .storeBusy ∧ q = .running h k .call := by
  cases h
  exact ⟨_, _, rfl, rfl⟩

/-- The library may accept the command a `run` asks for. -/
theorem Pc.next_issue (h : Handle) (k : Caller) (n : Nat) :
    (Pc.running h k .call).next (.issue ⟨n, h.inst k.which, k.bufs⟩) =
      some (.running h k (.inCall ⟨n, h.inst k.which, k.bufs⟩), []) := by
  simp [Pc.next, RunPc.next]

theorem Edge.issue_inv {p q : Pc} {c : Command} {freed : List Obj}
    (h : Edge p (.issue c) q freed) :
    ∃ h k, p = .running h k .call ∧ q = .running h k (.inCall c) := by
  cases h
  exact ⟨_, _, rfl, rfl⟩

theorem Edge.load_inv {p q : Pc} {st : UInt16} {freed : List Obj}
    (h : Edge p (.load st) q freed) :
    ∃ h k c, p = .running h k (.poll c) ∧
      (st = busyStatus ∧ q = .running h k (.check c) ∨
        st ≠ busyStatus ∧ q = (k.return h (Error.fromStatus st)).1) := by
  cases h
  case pollBusy h k c => exact ⟨h, k, c, rfl, .inl ⟨rfl, rfl⟩⟩
  case pollDone h k c hst => exact ⟨h, k, c, rfl, .inr ⟨hst, rfl⟩⟩

theorem Pc.runResult_poll (h : Handle) (k : Caller) (c : Command) {st : UInt16}
    (hst : st ≠ busyStatus) :
    (Pc.running h k (.poll c)).runResult (.load st) = some (Error.fromStatus st) := by
  have hne := mt (toUInt32_eq_busy_iff st).mp hst
  simp only [Pc.runResult, RunPc.next, ne_eq, if_pos hne, Option.bind_some, Sum.getRight?_inr]

theorem Pc.runResult_load {p : Pc} {st : UInt16} {r : Result Unit}
    (hr : p.runResult (.load st) = some r) :
    ∃ h k c, p = .running h k (.poll c) ∧ st ≠ busyStatus ∧ r = Error.fromStatus st := by
  unfold Pc.runResult at hr
  split at hr
  · obtain ⟨next, hnext, hright⟩ := Option.bind_eq_some_iff.mp hr
    unfold RunPc.next at hnext
    split at hnext
    case h_5 heq =>
      cases heq
      split at hnext
      · rename_i hst
        cases hnext
        exact ⟨_, _, _, rfl, mt (toUInt32_eq_busy_iff st).mpr hst, (Option.some.inj hright).symm⟩
      · cases hnext
        cases hright
    all_goals contradiction
  · cases hr

theorem Edge.timeout_return {p q : Pc} {freed : List Obj} (h : Edge p (.clock true) q freed) :
    ∃ (hd : Handle) (k : Caller), q = (k.return hd (.error .timeout)).1 := by
  cases h
  exact ⟨_, _, rfl⟩

/-- `run` answers `Timeout` only at its clock. -/
theorem Edge.timeout_inv {p q : Pc} {o : Op} {freed : List Obj} (h : Edge p o q freed)
    (hr : p.runResult o = some (.error .timeout)) :
    ∃ h k c, p = .running h k (.check c) ∧ o = .clock true := by
  cases h
  case timeout h k c => exact ⟨h, k, c, rfl, rfl⟩
  case reject hcode =>
    simp only [Pc.runResult, RunPc.next, true_and, if_pos hcode, Option.bind_some,
      Sum.getRight?_inr, Option.some.injEq] at hr
    exact absurd hr (fromStatus_ne_timeout _)
  case pollDone hst =>
    have hne := mt (toUInt32_eq_busy_iff _).mp hst
    simp only [Pc.runResult, RunPc.next, ne_eq, if_pos hne, Option.bind_some,
      Sum.getRight?_inr, Option.some.injEq] at hr
    exact absurd hr (fromStatus_ne_timeout _)
  case issue hinst hbufs =>
    simp [Pc.runResult, RunPc.next, hinst, hbufs] at hr
  all_goals cases hr

theorem Caller.return_midRun (k : Caller) (h : Handle) (r : Result Unit) :
    (k.return h r).1.midRun = false := by
  unfold Caller.return
  split <;> rfl

/-- Nobody gets behind a store of `BUSY` without making it. -/
theorem Edge.midRun {p q : Pc} {o : Op} {freed : List Obj} (h : Edge p o q freed)
    (ho : o ≠ .storeBusy) (hq : q.midRun = true) : p.midRun = true := by
  cases h
  case reject | pollDone | timeout => rfl
  case dropBus d => cases d <;> cases hq
  case storeBusy => exact absurd rfl ho
  all_goals first
    | rfl
    | cases hq

theorem Edge.call_inv {p q : Pc} {o : Op} {freed : List Obj} (h : Edge p o q freed)
    {hd : Handle} {k : Caller} (hq : q = .running hd k .call) : o = .storeBusy := by
  cases h
  case storeBusy => rfl
  case dropBus d => cases d <;> cases hq
  case reject | pollDone | timeout =>
    have hmid := congrArg Pc.midRun hq
    rw [Caller.return_midRun] at hmid
    cases hmid
  all_goals cases hq

theorem Pc.hasHandle_of_command {p : Pc} {c : Command} (h : p.command? = some c) :
    p.hasHandle = true := by
  unfold Pc.command? at h
  split at h
  · rfl
  · rfl
  · rfl
  · cases h

theorem Pc.hasHandle_of_midRun {p : Pc} (h : p.midRun = true) : p.hasHandle = true := by
  unfold Pc.midRun at h
  split at h
  · cases h
  · rfl
  · cases h

/-- The command of a session's `run` is the one it has just issued, or the one it had. -/
theorem Edge.command {p q : Pc} {o : Op} {freed : List Obj} (h : Edge p o q freed) {c : Command}
    (hc : q.command? = some c) : c ∈ o.issued ∨ p.command? = some c := by
  cases h
  case reject | pollDone | timeout => rw [Caller.return_command] at hc; cases hc
  case dropBus d => cases d <;> cases hc
  case issue => exact .inl (by simpa [Pc.command?, Op.issued, eq_comm] using hc)
  case callReturns => exact .inr hc
  case pollBusy => exact .inr hc
  case again => exact .inr hc
  all_goals cases hc

/-- A `run` keeps its command until it reads a status or gives up. -/
theorem Edge.command_ends {p q : Pc} {o : Op} {freed : List Obj} (h : Edge p o q freed)
    {c : Command} (hc : p.command? = some c) :
    q.command? = some c ∨ (∃ st, o = .load st ∧ st ≠ busyStatus) ∨ o = .clock true := by
  cases h
  case callReturns => exact .inl hc
  case pollBusy => exact .inl hc
  case again => exact .inl hc
  case pollDone st hst => exact .inr (.inl ⟨st, rfl, hst⟩)
  case timeout => exact .inr (.inr rfl)
  all_goals cases hc

theorem Handle.inst_mem_objs (h : Handle) (w : Which) : .inst (h.inst w) ∈ h.objs := by
  cases w <;> simp [Handle.objs]

/-- A session in the middle of a `run` owns the instance and the pointers of its command. -/
theorem Edge.command_held {p q : Pc} {o : Op} {freed : List Obj} (h : Edge p o q freed)
    {c : Command} (hc : q.command? = some c)
    (hp : p.command? = some c → ∀ x ∈ c.objs, x ∈ p.owns) : ∀ x ∈ c.objs, x ∈ q.owns := by
  rcases h.command hc with hissued | hpc
  · obtain rfl := Op.eq_issue_of_mem hissued
    cases h
    case issue hd k hinst hbufs =>
      intro x hx
      rw [Command.objs, hinst, hbufs] at hx
      rcases List.mem_cons.mp hx with rfl | hx
      · exact List.mem_append_right _ (hd.inst_mem_objs _)
      · exact List.mem_append_left _ hx
  · have hheld := hp hpc
    cases h
    case callReturns => exact hheld
    case pollBusy => exact hheld
    case again => exact hheld
    case pollDone => rw [Caller.return_command] at hc; cases hc
    case timeout => rw [Caller.return_command] at hc; cases hc
    all_goals cases hpc

/-- Only `trustm_sys_configure` with the session's own string moves the bus pointer. -/
theorem Edge.path {p q : Pc} {o : Op} {freed : List Obj} (h : Edge p o q freed) {b : BusPath}
    (hb : o.path b ≠ b) :
    ∃ bus addr, p = .configuring bus addr ∧ o = .configure bus addr ∧
      o.path b = .cstring bus.number := by
  cases h
  case configure bus addr =>
    refine ⟨bus, addr, rfl, rfl, ?_⟩
    simp only [Op.path] at hb ⊢
    by_cases hdev : bus.first ≠ 0
    · rw [if_pos hdev]
    · rw [if_neg hdev] at hb
      exact absurd rfl hb
  all_goals exact absurd rfl hb

end Trustm
