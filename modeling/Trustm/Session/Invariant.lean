import Trustm.Session.Steps
import Trustm.Support.Ownership

/-!
# What holds in every history

`Consistent` collects what no interleaving of the sessions and the callbacks can break: who
owns the living objects, that numbers are never given out twice, and that `OPEN` is set for a
session that is active. The safety questions of the later modules start from it; they are
about what the histories of the process do *not* preserve.
-/

namespace Trustm

open Run Ownership

structure Consistent (s : Process) : Prop where
  /-- Every living object has exactly one owner, and every owned object is alive. -/
  accounted : Accounted Pc.owns s.sessions s.live
  liveOld : ∀ x ∈ s.live, x.number < s.fresh
  pendingOld : ∀ c ∈ s.pending, c.number < s.fresh
  commandOld : ∀ p ∈ s.sessions, ∀ c, p.command? = some c → c.number < s.fresh
  /-- A `run` in progress owns what its command points to. -/
  commandHeld : ∀ p ∈ s.sessions, ∀ c, p.command? = some c →
    ∀ x ∈ c.objs, x ∈ p.owns
  pendingNodup : (s.pending.map Command.number).Nodup
  pathOld : ∀ n, s.i2cIf = .cstring n → n < s.fresh
  openActive : s.OPEN = true → ∃ p ∈ s.sessions, p.active = true

namespace Consistent

theorem start : Consistent init where
  accounted := Accounted.nil
  liveOld := by simp [init]
  pendingOld := by simp [init]
  commandOld := by simp [init]
  commandHeld := by simp [init]
  pendingNodup := by simp [init]
  pathOld := by simp [init]
  openActive := by simp [init]

variable {s t : Process}

/-- What a session uses is alive. -/
theorem owned_mem_live (hs : Consistent s) {i : Nat} {p : Pc} (hi : s.sessions[i]? = some p)
    {x : Obj} (hx : x ∈ p.owns) : x ∈ s.live :=
  hs.accounted.mem_live hi hx

theorem owned_old (hs : Consistent s) {i : Nat} {p : Pc} (hi : s.sessions[i]? = some p)
    {x : Obj} (hx : x ∈ p.owns) : x.number < s.fresh :=
  hs.liveOld x (hs.owned_mem_live hi hx)

/-! ## One access -/

section

variable {i : Nat} {o : Op} {p q : Pc} {freed : List Obj}

theorem accounted_op (hs : Consistent s) (h : OpStep s i o t p q freed) :
    Accounted Pc.owns t.sessions t.live := by
  rw [h.sessions, h.live]
  refine hs.accounted.update h.before ?_ ?_ h.edge.balance
  · exact List.nodup_iff_count_le_one.mp h.newsNodup
  · intro x hx hlive
    have hnew := (h.newsFresh x hx).1
    have hold := hs.liveOld x hlive
    omega

theorem liveOld_op (hs : Consistent s) (h : OpStep s i o t p q freed) :
    ∀ x ∈ t.live, x.number < t.fresh := by
  intro x hx
  rw [h.live] at hx
  rcases List.mem_append.mp (List.diff_subset _ _ hx) with hnew | hlive
  · exact (h.newsFresh x hnew).2
  · exact (hs.liveOld x hlive).trans_le h.fresh_le

theorem pendingOld_op (hs : Consistent s) (h : OpStep s i o t p q freed) :
    ∀ c ∈ t.pending, c.number < t.fresh := by
  intro c hc
  rw [h.pending] at hc
  rcases List.mem_append.mp hc with hc | hc
  · exact h.issued_lt hc
  · exact (hs.pendingOld c hc).trans_le h.fresh_le

theorem commandOld_op (hs : Consistent s) (h : OpStep s i o t p q freed) :
    ∀ r ∈ t.sessions, ∀ c, r.command? = some c → c.number < t.fresh := by
  intro r hr c hc
  rcases h.mem_sessions hr with rfl | hr
  · rcases h.edge.command hc with hissued | hp
    · exact h.issued_lt hissued
    · exact (hs.commandOld p h.mem_before c hp).trans_le h.fresh_le
  · exact (hs.commandOld r hr c hc).trans_le h.fresh_le

theorem commandHeld_op (hs : Consistent s) (h : OpStep s i o t p q freed) :
    ∀ r ∈ t.sessions, ∀ c, r.command? = some c → ∀ x ∈ c.objs, x ∈ r.owns := by
  intro r hr c hc
  rcases h.mem_sessions hr with rfl | hr
  · exact h.edge.command_held hc (hs.commandHeld p h.mem_before c)
  · exact hs.commandHeld r hr c hc

theorem pendingNodup_op (hs : Consistent s) (h : OpStep s i o t p q freed) :
    (t.pending.map Command.number).Nodup := by
  rw [h.pending, List.map_append]
  refine List.Nodup.append ?_ hs.pendingNodup ?_
  · cases o <;> simp [Op.issued]
  · intro n hn hn'
    obtain ⟨c, hc, rfl⟩ := List.mem_map.mp hn
    obtain ⟨d, hd, hdc⟩ := List.mem_map.mp hn'
    have hold := hs.pendingOld d hd
    have hnew := h.issuedFresh c hc
    omega

theorem pathOld_op (hs : Consistent s) (h : OpStep s i o t p q freed) :
    ∀ n, t.i2cIf = .cstring n → n < t.fresh := by
  intro n hn
  rw [h.i2cIf] at hn
  by_cases hsame : o.path s.i2cIf = s.i2cIf
  · rw [hsame] at hn
    exact (hs.pathOld n hn).trans_le h.fresh_le
  · obtain ⟨bus, addr, rfl, rfl, hdev⟩ := h.edge.path hsame
    rw [hdev] at hn
    cases hn
    have hbus : bus.obj.number < s.fresh := hs.owned_old h.before (by simp [Pc.owns])
    exact hbus.trans_le h.fresh_le

theorem openActive_op (hs : Consistent s) (h : OpStep s i o t p q freed) :
    t.OPEN = true → ∃ r ∈ t.sessions, r.active = true := by
  intro hopen
  rw [h.OPEN] at hopen
  by_cases ho : o = .storeOpen
  · simp [ho] at hopen
  · rw [if_neg ho] at hopen
    have hcount := h.countP Pc.active
    rw [h.edge.active_eq ho, Nat.add_right_cancel_iff] at hcount
    have hpos := List.countP_pos_iff.mpr (hs.openActive hopen)
    exact List.countP_pos_iff.mp (hcount ▸ hpos)

end

/-- A destroyed object is gone: it was alive once. -/
theorem not_mem_of_destroy (hs : Consistent s) {i : Nat} {x : Inst} {p q : Pc}
    {freed : List Obj} (h : OpStep s i (.destroy x) t p q freed) : .inst x ∉ t.live := by
  have honce := hs.accounted.once (.inst x)
  rw [← List.count_pos_iff, h.live, List.count_diff, List.count_append, List.count_append]
  simp only [Op.news, Op.olds, List.count_nil, List.count_singleton_self]
  omega

/-! ## Histories -/

/-- A session that has just opened has no command. -/
theorem mem_of_command {ps : List Pc} {bus : List UInt8} {addr : UInt8} {p : Pc} {c : Command}
    (hp : p ∈ ps ++ [.opening bus addr]) (hc : p.command? = some c) : p ∈ ps := by
  rcases List.mem_append.mp hp with hp | hp
  · exact hp
  · rw [List.mem_singleton.mp hp] at hc
    cases hc

theorem step (hs : Consistent s) {a : Act} (h : step s a = some t) : Consistent t := by
  cases a with
  | openRefused =>
    obtain ⟨_, rfl⟩ := openRefused_step h
    exact hs
  | openSwap bus addr =>
    obtain ⟨_, rfl⟩ := openSwap_step h
    exact {
      accounted := hs.accounted.join rfl
      liveOld := hs.liveOld
      pendingOld := hs.pendingOld
      commandOld := fun p hp c hc => hs.commandOld p (mem_of_command hp hc) c hc
      commandHeld := fun p hp c hc => hs.commandHeld p (mem_of_command hp hc) c hc
      pendingNodup := hs.pendingNodup
      pathOld := hs.pathOld
      openActive := fun _ => ⟨_, List.mem_append_right _ (List.mem_singleton_self _), rfl⟩ }
  | op i o =>
    obtain ⟨p, q, freed, h⟩ := opStep_of_step h
    exact ⟨hs.accounted_op h, hs.liveOld_op h, hs.pendingOld_op h, hs.commandOld_op h,
      hs.commandHeld_op h, hs.pendingNodup_op h, hs.pathOld_op h, hs.openActive_op h⟩
  | callback c st =>
    obtain ⟨_, _, rfl⟩ := callback_step h
    exact {
      accounted := hs.accounted
      liveOld := hs.liveOld
      pendingOld := fun d hd => hs.pendingOld d (List.mem_of_mem_erase hd)
      commandOld := hs.commandOld
      commandHeld := hs.commandHeld
      pendingNodup := hs.pendingNodup.sublist ((List.erase_sublist).map _)
      pathOld := hs.pathOld
      openActive := hs.openActive }

theorem of_history {as : List Act} (h : history as = some s) : Consistent s :=
  invariant (fun _ _ _ hs h => hs.step h) start h

theorem always (as : List Act) : Always Trustm.step Consistent init as :=
  always_iff_prefix.mpr fun _ _ _ _ h => of_history h

end Consistent

end Trustm
