import Trustm.Session.Edges

/-!
# What one step can do

Every invariant of the process is proved from the facts of this module and of the module on
the control flow; none of them unfolds `step` or `Op.exec` again.

* `OpStep` is the whole effect of an access of session `i` on the state (`opStep_of_step`).
* `openRefused_step`, `openSwap_step`, `callback_step` are the other actions.
* `session_before` and its variants say where a session of the new state comes from.
-/

namespace Trustm

/-! ## The effect of a step -/

/-- Access `o` of session `i` takes `s` to `t` and the session from `p` to `q`, where the
locals `freed` end. -/
structure OpStep (s : Process) (i : Nat) (o : Op) (t : Process) (p q : Pc) (freed : List Obj) :
    Prop where
  before : s.sessions[i]? = some p
  edge : Edge p o q freed
  sessions : t.sessions = s.sessions.set i q
  live : t.live = (o.news ++ s.live).diff (o.olds ++ freed)
  OPEN : t.OPEN = if o = .storeOpen then false else s.OPEN
  STATUS : t.STATUS = if o = .storeBusy then busyStatus else s.STATUS
  pending : t.pending = o.issued ++ s.pending
  i2cIf : t.i2cIf = o.path s.i2cIf
  fresh : t.fresh = s.fresh + o.news.length + o.issued.length
  newsNodup : o.news.Nodup
  newsFresh : ∀ x ∈ o.news, s.fresh ≤ x.number ∧ x.number < t.fresh
  issuedFresh : ∀ c ∈ o.issued, c.number = s.fresh
  load : ∀ st, o = .load st → st = s.STATUS

theorem mem_buffers {n k : Nat} {x : Obj} (h : x ∈ (List.range' n k).map Obj.buffer) :
    n ≤ x.number ∧ x.number < n + k := by
  obtain ⟨m, hm, rfl⟩ := List.mem_map.mp h
  exact List.mem_range'_1.mp hm

theorem nodup_buffers (n k : Nat) : ((List.range' n k).map Obj.buffer).Nodup := by
  apply List.Nodup.map _ List.nodup_range'
  intro a b hab
  cases hab
  rfl

/-- What an access leaves as it was, and what it adds. -/
theorem exec_effect {s u : Process} {o : Op} (h : o.exec s = some u) :
    u.sessions = s.sessions ∧ u.live = (o.news ++ s.live).diff o.olds ∧
      u.OPEN = (if o = .storeOpen then false else s.OPEN) ∧
      u.STATUS = (if o = .storeBusy then busyStatus else s.STATUS) ∧
      u.pending = o.issued ++ s.pending ∧ u.i2cIf = o.path s.i2cIf ∧
      u.fresh = s.fresh + o.news.length + o.issued.length := by
  unfold Op.exec at h
  split at h
  case h_3 => -- configure
    cases h
    unfold trustmSysConfigure
    simp only [Op.news, Op.olds, Op.issued, Op.path]
    split <;> split <;> simp
  all_goals try split at h
  all_goals cases h
  all_goals simp [Op.news, Op.olds, Op.issued, Op.path]

theorem exec_guard {s u : Process} {o : Op} (h : o.exec s = some u) :
    o.news.Nodup ∧ (∀ x ∈ o.news, s.fresh ≤ x.number ∧ x.number < u.fresh) ∧
      (∀ c ∈ o.issued, c.number = s.fresh) ∧ ∀ st, o = .load st → st = s.STATUS := by
  unfold Op.exec at h
  split at h
  case h_14 w bufs => -- enter
    split at h
    · rename_i hbufs
      cases h
      refine ⟨?_, ?_, by simp [Op.issued], by simp⟩
      · rw [Op.news, hbufs]
        exact nodup_buffers _ _
      · intro x hx
        rw [Op.news, hbufs] at hx
        exact mem_buffers hx
    · cases h
  case h_12 => -- load
    split at h
    · rename_i hst
      cases h
      simpa [Op.news, Op.issued] using hst
    · cases h
  all_goals try split at h
  all_goals cases h
  all_goals simp [Op.news, Op.issued, CString.obj, Obj.number, *]

theorem opStep_of_exec {s u : Process} {i : Nat} {p q : Pc} {o : Op} {freed : List Obj}
    (hp : s.sessions[i]? = some p) (hnext : p.next o = some (q, freed))
    (hexec : o.exec s = some u) :
    OpStep s i o { u with sessions := u.sessions.set i q, live := u.live.diff freed } p q
      freed := by
  obtain ⟨hsessions, hlive, hOPEN, hSTATUS, hpending, hpath, hfresh⟩ := exec_effect hexec
  obtain ⟨hnodup, hnews, hissued, hload⟩ := exec_guard hexec
  exact {
    before := hp
    edge := edge_of_next hnext
    sessions := by rw [hsessions]
    live := by rw [hlive, List.diff_append]
    OPEN := hOPEN
    STATUS := hSTATUS
    pending := hpending
    i2cIf := hpath
    fresh := hfresh
    newsNodup := hnodup
    newsFresh := hnews
    issuedFresh := hissued
    load := hload }

theorem opStep_of_step {s t : Process} {i : Nat} {o : Op} (h : step s (.op i o) = some t) :
    ∃ p q freed, OpStep s i o t p q freed := by
  simp only [step, Option.bind_eq_bind, Option.bind_eq_some_iff] at h
  obtain ⟨p, hp, ⟨q, freed⟩, hnext, u, hexec, ht⟩ := h
  cases ht
  exact ⟨p, q, freed, opStep_of_exec hp hnext hexec⟩

/-- A step is possible when the source makes the access and its answer fits the state. -/
theorem exists_opStep {s : Process} {i : Nat} {p q : Pc} {o : Op} {freed : List Obj}
    (hp : s.sessions[i]? = some p) (hnext : p.next o = some (q, freed))
    (hexec : (o.exec s).isSome) :
    ∃ t, step s (.op i o) = some t ∧ OpStep s i o t p q freed := by
  obtain ⟨u, hu⟩ := Option.isSome_iff_exists.mp hexec
  refine ⟨_, ?_, opStep_of_exec hp hnext hu⟩
  simp only [step, hp, hnext, hu, Option.bind_eq_bind, Option.bind_some]
  rfl

theorem openRefused_step {s t : Process} (h : step s .openRefused = some t) :
    s.OPEN = true ∧ t = s := by
  simp only [step, Option.ite_none_right_eq_some, Option.some.injEq] at h
  obtain ⟨hopen, rfl⟩ := h
  refine ⟨hopen, ?_⟩
  rw [← hopen]

theorem openSwap_step {s t : Process} {bus : List UInt8} {addr : UInt8}
    (h : step s (.openSwap bus addr) = some t) :
    s.OPEN = false ∧
      t = { s with OPEN := true, sessions := s.sessions ++ [.opening bus addr] } := by
  simp only [step, Option.ite_none_left_eq_some, Option.some.injEq, Bool.not_eq_true] at h
  exact ⟨h.1, h.2.symm⟩

theorem callback_step {s t : Process} {c : Command} {st : UInt16}
    (h : step s (.callback c st) = some t) :
    c ∈ s.pending ∧ st ≠ busyStatus ∧
      t = { s with STATUS := st, pending := s.pending.erase c } := by
  simp only [step, Option.ite_none_right_eq_some, Option.some.injEq] at h
  exact ⟨h.1.1, h.1.2, h.2.symm⟩

/-! ## Sessions after a step -/

section

variable {s t : Process} {i j : Nat} {o : Op} {p q r : Pc} {freed : List Obj}

theorem OpStep.session (h : OpStep s i o t p q freed) : t.sessions[i]? = some q := by
  obtain ⟨hlt, _⟩ := List.getElem?_eq_some_iff.mp h.before
  rw [h.sessions]
  exact List.getElem?_set_self hlt

theorem OpStep.other (h : OpStep s i o t p q freed) (hij : i ≠ j) :
    t.sessions[j]? = s.sessions[j]? := by
  rw [h.sessions]
  exact List.getElem?_set_ne hij

theorem OpStep.mem_sessions (h : OpStep s i o t p q freed) (hr : r ∈ t.sessions) :
    r = q ∨ r ∈ s.sessions := by
  rw [h.sessions] at hr
  rcases List.mem_or_eq_of_mem_set hr with hr | hr
  · exact .inr hr
  · exact .inl hr

theorem OpStep.mem_before (h : OpStep s i o t p q freed) : p ∈ s.sessions :=
  List.mem_of_getElem? h.before

theorem OpStep.fresh_le (h : OpStep s i o t p q freed) : s.fresh ≤ t.fresh := by
  rw [h.fresh]
  omega

theorem OpStep.issued_lt (h : OpStep s i o t p q freed) {c : Command} (hc : c ∈ o.issued) :
    c.number < t.fresh := by
  have hpos := List.length_pos_of_mem hc
  rw [h.issuedFresh c hc, h.fresh]
  omega

/-- The number of sessions of a kind changes by the session that took the step. -/
theorem OpStep.countP (h : OpStep s i o t p q freed) (f : Pc → Bool) :
    t.sessions.countP f + (if f p then 1 else 0) =
      s.sessions.countP f + (if f q then 1 else 0) := by
  obtain ⟨hlt, hget⟩ := List.getElem?_eq_some_iff.mp h.before
  have hpos : f p = true → 0 < s.sessions.countP f := fun hp =>
    List.countP_pos_iff.mpr ⟨p, h.mem_before, hp⟩
  rw [h.sessions, List.countP_set hlt, hget]
  by_cases hp : f p = true
  · have := hpos hp
    simp only [hp, if_true]
    omega
  · simp only [hp, if_false, Bool.false_eq_true]
    omega

end

section

variable {s t : Process} {a : Act} {j : Nat} {q : Pc}

/-- Where a session comes from: it was there before, it has just opened, or the step was its
own. -/
theorem session_before (h : step s a = some t) (hq : t.sessions[j]? = some q) :
    s.sessions[j]? = some q ∨ (∃ bus addr, q = .opening bus addr) ∨
      ∃ o p freed, a = .op j o ∧ OpStep s j o t p q freed := by
  cases a with
  | openRefused =>
    obtain ⟨_, rfl⟩ := openRefused_step h
    exact .inl hq
  | openSwap bus addr =>
    obtain ⟨_, rfl⟩ := openSwap_step h
    simp only [List.getElem?_append] at hq
    split at hq
    · exact .inl hq
    · exact .inr (.inl ⟨bus, addr, List.mem_singleton.mp (List.mem_of_getElem? hq)⟩)
  | op i o =>
    obtain ⟨p, r, freed, h⟩ := opStep_of_step h
    by_cases hij : i = j
    · subst hij
      obtain rfl : r = q := Option.some.inj (h.session.symm.trans hq)
      exact .inr (.inr ⟨o, p, freed, rfl, h⟩)
    · rw [h.other hij] at hq
      exact .inl hq
  | callback c st =>
    obtain ⟨_, _, rfl⟩ := callback_step h
    exact .inl hq

/-- The command of a `run` was issued by this step or before it. -/
theorem command_before (h : step s a = some t) (hq : t.sessions[j]? = some q) {c : Command}
    (hc : q.command? = some c) :
    a = .op j (.issue c) ∨ ∃ p, s.sessions[j]? = some p ∧ p.command? = some c := by
  rcases session_before h hq with hq | ⟨bus, addr, rfl⟩ | ⟨o, p, freed, rfl, hop⟩
  · exact .inr ⟨q, hq, hc⟩
  · cases hc
  · rcases hop.edge.command hc with hissued | hp
    · obtain rfl := Op.eq_issue_of_mem hissued
      exact .inl rfl
    · exact .inr ⟨p, hop.before, hp⟩

/-- A session waits at its call only if it has just stored `BUSY` or did so before. -/
theorem call_before (h : step s a = some t) {hd : Handle} {k : Caller}
    (hq : t.sessions[j]? = some (.running hd k .call)) :
    a = .op j .storeBusy ∨ s.sessions[j]? = some (.running hd k .call) := by
  rcases session_before h hq with hq | ⟨bus, addr, hq⟩ | ⟨o, p, freed, rfl, hop⟩
  · exact .inr hq
  · cases hq
  · rw [hop.edge.call_inv rfl]
    exact .inl rfl

end

end Trustm
