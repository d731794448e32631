import Trustm.Session.BusPath
import Trustm.Support.Simulation

/-!
# The configuration in force

The bus and the address of a handle live in C statics that any `open` may overwrite, and 0 or an
empty string leaves what an earlier one has set. While a session is active nobody else gets past
the swap, so what it has configured stays.

* `opens`: the arguments of the calls of `open` that have got past the swap; the sessions are
  numbered by them.
* `config_in_force`: from its `trustm_sys_configure` to its `Drop`, a session finds the address
  and the bus that its own `open` was called with, unless it was called with 0 or an empty string.
-/

namespace Trustm

open Run

/-! ## Calls of `open` -/

/-- The arguments of the `open` calls that found `OPEN` clear. -/
def opens (as : List Act) : List (List UInt8 × UInt8) :=
  as.filterMap fun
    | .openSwap bus addr => some (bus, addr)
    | _ => none

theorem opens_openSwap (as : List Act) (bus : List UInt8) (addr : UInt8) :
    opens (as ++ [.openSwap bus addr]) = opens as ++ [(bus, addr)] := List.filterMap_append

theorem opens_snoc {as : List Act} {a : Act} (ha : ∀ bus addr, a ≠ .openSwap bus addr) :
    opens (as ++ [a]) = opens as := by
  rw [opens, List.filterMap_append]
  cases a with
  | openSwap bus addr => exact absurd rfl (ha bus addr)
  | _ => exact List.append_nil _

/-- A call that has got past the swap keeps its number. -/
theorem opens_mono {as : List Act} {i : Nat} {args : List UInt8 × UInt8} (bs : List Act)
    (h : (opens as)[i]? = some args) : (opens (as ++ bs))[i]? = some args := by
  have happend : opens (as ++ bs) = opens as ++ opens bs := List.filterMap_append
  rw [happend, List.getElem?_append_left (List.getElem?_eq_some_iff.mp h).1]
  exact h

/-- The arguments a session has not used up yet. -/
def Pc.asked? : Pc → Option (List UInt8 × UInt8)
  | .opening bus addr => some (bus, addr)
  | .configuring bus addr => some (bus.bytes, addr)
  | _ => none

/-! ## The address -/

/-- What an access makes of the slave address. -/
def Op.address : Op → UInt8 → UInt8
  | .configure _ addr, b => if addr ≠ 0 then addr else b
  | _, b => b

theorem exec_address {s u : Process} {o : Op} (h : o.exec s = some u) :
    u.slaveAddress = o.address s.slaveAddress := by
  unfold Op.exec at h
  split at h
  case h_3 => -- configure
    cases h
    unfold trustmSysConfigure
    simp only [Op.address]
    split <;> split <;> rfl
  all_goals try split at h
  all_goals cases h
  all_goals rfl

theorem address_step {s t : Process} {i : Nat} {o : Op} (h : step s (.op i o) = some t) :
    t.slaveAddress = o.address s.slaveAddress := by
  simp only [step, Option.bind_eq_bind, Option.bind_eq_some_iff] at h
  obtain ⟨p, _, ⟨q, freed⟩, _, u, hexec, ht⟩ := h
  cases ht
  show u.slaveAddress = _
  exact exec_address hexec

/-- The address moves only by a session that configures it. -/
theorem address_after {s t : Process} {a : Act} (h : step s a = some t) :
    t.slaveAddress = s.slaveAddress ∨ ∃ i bus addr, a = .op i (.configure bus addr) ∧
      s.sessions[i]? = some (.configuring bus addr) := by
  cases a with
  | openRefused =>
    obtain ⟨_, rfl⟩ := openRefused_step h
    exact Or.inl rfl
  | openSwap bus addr =>
    obtain ⟨_, rfl⟩ := openSwap_step h
    exact Or.inl rfl
  | callback c st =>
    obtain ⟨_, _, rfl⟩ := callback_step h
    exact Or.inl rfl
  | op i o =>
    have haddress := address_step h
    cases o with
    | configure bus addr =>
      obtain ⟨p, q, freed, hop⟩ := opStep_of_step h
      refine Or.inr ⟨i, bus, addr, rfl, ?_⟩
      rw [hop.before]
      cases hop.edge
      rfl
    | _ => exact Or.inl haddress

/-! ## What the sessions have asked for -/

/-- The sessions stand in the order of their opens, with their arguments until they are used. -/
structure Asked (as : List Act) (s : Process) : Prop where
  length : s.sessions.length = (opens as).length
  args : ∀ (i : Nat) (p : Pc) args, s.sessions[i]? = some p → p.asked? = some args →
    (opens as)[i]? = some args
  bus : ∀ (i : Nat) (p : Pc) b, s.sessions[i]? = some p → p.bus? = some b →
    ∃ addr, (opens as)[i]? = some (b.bytes, addr)

/-- The address in force is that of every session that has configured one. -/
def AddressOf (as : List Act) (s : Process) : Prop :=
  ∀ (i : Nat) (p : Pc) b addr, s.sessions[i]? = some p → p.configured? = some b →
    (opens as)[i]? = some (b.bytes, addr) → addr ≠ 0 → s.slaveAddress = addr

section

variable {p q : Pc} {o : Op} {freed : List Obj}

theorem Caller.return_asked (k : Caller) (h : Handle) (r : Result Unit) :
    (k.return h r).1.asked? = none := by
  unfold Caller.return
  split <;> rfl

theorem Edge.asked (h : Edge p o q freed) {args : List UInt8 × UInt8}
    (hq : q.asked? = some args) : p.asked? = some args := by
  cases h with
  | cstringNew => exact hq
  | reject | pollDone | timeout =>
    rw [Caller.return_asked] at hq
    cases hq
  | dropBus =>
    rename_i d
    cases d <;> cases hq
  | _ => cases hq

theorem Edge.cstringNew_inv {b : CString} (h : Edge p (.cstringNew (some b)) q freed) :
    ∃ addr, p = .opening b.bytes addr := by
  cases h
  exact ⟨_, rfl⟩

theorem Edge.configure_inv {b : CString} {addr : UInt8} (h : Edge p (.configure b addr) q freed) :
    p = .configuring b addr := by
  cases h
  rfl

end

/-- Sessions come only from the swap. -/
theorem sessions_kept {s t : Process} {a : Act} (ha : ∀ bus addr, a ≠ .openSwap bus addr)
    (h : step s a = some t) :
    t.sessions.length = s.sessions.length ∧ ∀ (j : Nat) q, t.sessions[j]? = some q →
      s.sessions[j]? = some q ∨ ∃ o p freed, a = .op j o ∧ OpStep s j o t p q freed := by
  cases a with
  | openSwap bus addr => exact absurd rfl (ha bus addr)
  | openRefused =>
    obtain ⟨_, rfl⟩ := openRefused_step h
    exact ⟨rfl, fun j q hq => Or.inl hq⟩
  | callback c st =>
    obtain ⟨_, _, rfl⟩ := callback_step h
    exact ⟨rfl, fun j q hq => Or.inl hq⟩
  | op i o =>
    obtain ⟨p, r, freed, hop⟩ := opStep_of_step h
    refine ⟨by rw [hop.sessions, List.length_set], ?_⟩
    intro j q hq
    by_cases hij : i = j
    · subst hij
      obtain rfl := Option.some.inj (hop.session.symm.trans hq)
      exact Or.inr ⟨o, p, freed, rfl, hop⟩
    · rw [hop.other hij] at hq
      exact Or.inl hq

namespace Asked

variable {as : List Act} {s t : Process}

theorem start : Asked [] init where
  length := rfl
  args := by simp [init]
  bus := by simp [init]

theorem openSwap {bus : List UInt8} {addr : UInt8} (hs : Asked as s)
    (h : Trustm.step s (.openSwap bus addr) = some t) :
    Asked (as ++ [.openSwap bus addr]) t := by
  obtain ⟨_, rfl⟩ := openSwap_step h
  have hlen := hs.length
  refine ⟨?_, ?_, ?_⟩
  · rw [opens_openSwap, List.length_append, List.length_append, hlen]
    rfl
  · intro i p args hi hp
    rcases getElem?_concat_cases hi with hi | ⟨rfl, rfl⟩
    · exact opens_mono _ (hs.args i p args hi hp)
    · rw [opens_openSwap, hlen, List.getElem?_concat_length]
      exact hp
  · intro i p b hi hp
    rcases getElem?_concat_cases hi with hi | ⟨rfl, rfl⟩
    · obtain ⟨addr', hx⟩ := hs.bus i p b hi hp
      exact ⟨addr', opens_mono _ hx⟩
    · cases hp

/-- Any other action leaves the opens, and no session gets new arguments. -/
theorem other {a : Act} (hs : Asked as s) (ha : ∀ bus addr, a ≠ .openSwap bus addr)
    (h : Trustm.step s a = some t) : Asked (as ++ [a]) t := by
  obtain ⟨hlen, hbefore⟩ := sessions_kept ha h
  refine ⟨?_, ?_, ?_⟩ <;> rw [opens_snoc ha]
  · rw [hlen, hs.length]
  · intro i q args hi hq
    rcases hbefore i q hi with hi | ⟨o, p, freed, _, hop⟩
    · exact hs.args i q args hi hq
    · exact hs.args i p args hop.before (hop.edge.asked hq)
  · intro i q b hi hq
    rcases hbefore i q hi with hi | ⟨o, p, freed, _, hop⟩
    · exact hs.bus i q b hi hq
    · rcases hop.edge.bus hq with hp | rfl
      · exact hs.bus i p b hop.before hp
      · obtain ⟨addr, rfl⟩ := hop.edge.cstringNew_inv
        exact ⟨addr, hs.args i _ _ hop.before rfl⟩

theorem step {a : Act} (hs : Asked as s) (h : Trustm.step s a = some t) :
    Asked (as ++ [a]) t := by
  cases a with
  | openSwap bus addr => exact hs.openSwap h
  | _ => exact hs.other (by simp) h

end Asked

theorem AddressOf.step {as : List Act} {s t : Process} {a : Act} (hs : AddressOf as s)
    (hasked : Asked as s) (hone : SingleSession s) (h : Trustm.step s a = some t) :
    AddressOf (as ++ [a]) t := by
  intro j q b addr hq hb hargs hne
  rcases configured_before h hq hb with ⟨p, hp, hpb⟩ | ⟨addr', rfl⟩
  · obtain ⟨addr', hold⟩ := hasked.bus j p b hp (Pc.bus_of_configured hpb)
    obtain rfl : addr' = addr :=
      congrArg Prod.snd (Option.some.inj ((opens_mono [a] hold).symm.trans hargs))
    have haddress := hs j p b addr' hp hpb hold hne
    rcases address_after h with heq | ⟨i, bus, addr'', rfl, hi⟩
    · rw [heq]
      exact haddress
    · -- the session that configures would be a second active one
      obtain rfl := hone.unique hi hp rfl (Pc.active_of_bus (Pc.bus_of_configured hpb))
      obtain rfl := Option.some.inj (hi.symm.trans hp)
      cases hpb
  · obtain ⟨p, r, freed, hop⟩ := opStep_of_step h
    obtain rfl := hop.edge.configure_inv
    have hold := hasked.args j _ _ hop.before rfl
    rw [opens_snoc (by simp), hold] at hargs
    cases hargs
    rw [address_step h, Op.address, if_pos hne]

theorem asked_addressOf {as : List Act} {s : Process} (h : history as = some s)
    (hrel : Meets step NoStaleRelease init as) : Asked as s ∧ AddressOf as s := by
  have hstart : Asked [] init ∧ AddressOf [] init := ⟨Asked.start, by simp [AddressOf, init]⟩
  refine exec_induction (R := fun as s => Asked as s ∧ AddressOf as s) hstart ?_
    (SingleSession.of_noStaleRelease hrel).meets h
  intro bs u a v _ hu hC hstep
  exact ⟨hu.1.step hstep, hu.2.step hu.1 hC.1 hstep⟩

theorem Pc.configured_mem_owns {p : Pc} {b : CString} (h : p.configured? = some b) :
    b.obj ∈ p.owns := by
  have hb := Pc.bus_of_configured h
  unfold Pc.bus? at hb
  split at hb
  case h_7 => cases hb
  all_goals
    cases hb
    simp [Pc.owns, Handle.objs]

/-- **A session works with the address and the bus that it was opened with.** -/
theorem config_in_force {as : List Act} {s : Process} (h : history as = some s)
    (hrel : Meets step NoStaleRelease init as) {i : Nat} {p : Pc} {b : CString}
    (hi : s.sessions[i]? = some p) (hb : p.configured? = some b) :
    ∃ addr, (opens as)[i]? = some (b.bytes, addr) ∧ (addr ≠ 0 → s.slaveAddress = addr) ∧
      (b.bytes ≠ [] → s.i2cIf = .cstring b.number ∧ b.obj ∈ s.live) := by
  obtain ⟨hasked, haddress⟩ := asked_addressOf h hrel
  obtain ⟨addr, hargs⟩ := hasked.bus i p b hi (Pc.bus_of_configured hb)
  refine ⟨addr, hargs, haddress i p b addr hi hb hargs, ?_⟩
  intro hne
  have hpath := (pathOf_of_noStaleRelease hrel).last h
  exact ⟨hpath.set i p b hi hb hne,
    (Consistent.of_history h).owned_mem_live hi (Pc.configured_mem_owns hb)⟩

/-- The second of two opens, about to open the application. -/
theorem config_in_force_reopen :
    ∃ addr, (opens (openedAndDropped ++ openDefault 1 4))[1]? = some (DEFAULT_BUS, addr) ∧
      (addr ≠ 0 → ((history (openedAndDropped ++ openDefault 1 4)).getD init).slaveAddress = addr) ∧
      (DEFAULT_BUS ≠ [] →
        ((history (openedAndDropped ++ openDefault 1 4)).getD init).i2cIf = .cstring 4 ∧
          Obj.cstring 4 ∈ ((history (openedAndDropped ++ openDefault 1 4)).getD init).live) :=
  config_in_force (i := 1)
    (b := ⟨4, DEFAULT_BUS, by decide⟩)
    (p := .running ⟨5, 6, ⟨4, DEFAULT_BUS, by decide⟩⟩ .openInner .storeBusy) rfl (by decide) rfl
    rfl

end Trustm
