import Trustm.Session.Lifetime

/-!
# Where the bus pointer points

`trustm_sys_configure` stores the pointer it gets in a C static, unless the string is empty.
The comment of the C side asks for a string that is valid for the life of the process; the
Rust side keeps it as long as the handle. The two agree only while every handle brings a
string that overwrites the pointer.

* `BusFresh` says that a live handle finds the static default or its own string there.
* `EmptyBusOnDefault` is what the history must add: an open with an empty string builds its
  handle only while the pointer is still the default.
* `busFresh_iff_emptyBusOnDefault`: with one session at a time the two are the same.
-/

namespace Trustm

open Run

/-- A live handle, also one whose `open_application` is being issued, finds the default or its
own string, which is alive. -/
def BusFresh (s : Process) : Prop :=
  ∀ p ∈ s.sessions, ∀ h ∈ p.handle?,
    s.i2cIf = .default ∨ s.i2cIf = .cstring h.bus.number ∧ h.bus.obj ∈ s.live

instance : DecidablePred BusFresh := fun s =>
  inferInstanceAs (Decidable (∀ p ∈ s.sessions, _))

/-- The string of a session between `CString::new` and the end of its activity. -/
def Pc.bus? : Pc → Option CString
  | .configuring bus _ | .creatingUtil bus | .creatingCrypt bus _ | .destroyingUtil bus _ =>
    some bus
  | .running h _ _ | .live h => some h.bus
  | _ => none

/-- The same from `trustm_sys_configure` on. -/
def Pc.configured? : Pc → Option CString
  | .configuring _ _ => none
  | p => p.bus?

/-- An open with an empty bus string creates its second instance, and with it the handle, only
while the pointer is the default. -/
def EmptyBusOnDefault (s : Process) : Act → Prop
  | .op i (.create .crypt (some _)) =>
    ∀ bus ∈ s.sessions[i]?.bind Pc.configured?, bus.bytes = [] → s.i2cIf = .default
  | _ => True

instance (s : Process) : DecidablePred (EmptyBusOnDefault s) := fun a => by
  unfold EmptyBusOnDefault
  split <;> infer_instance

/-! ## Strings and edges -/

theorem CString.first_ne_zero_iff (c : CString) : c.first ≠ 0 ↔ c.bytes ≠ [] := by
  have hnul := c.nulFree
  unfold CString.first
  cases hb : c.bytes with
  | nil => simp
  | cons b bs =>
    rw [hb] at hnul
    simp only [List.cons_append, List.headD_cons, ne_eq, reduceCtorEq, not_false_eq_true, iff_true]
    intro hzero
    rw [hzero] at hnul
    exact hnul List.mem_cons_self

theorem Pc.active_of_bus {p : Pc} {b : CString} (h : p.bus? = some b) : p.active = true := by
  unfold Pc.bus? at h
  split at h <;> first | rfl | cases h

theorem Pc.bus_of_configured {p : Pc} {b : CString} (h : p.configured? = some b) :
    p.bus? = some b := by
  unfold Pc.configured? at h
  split at h
  · cases h
  · exact h

theorem Pc.configured_of_handle {p : Pc} {h : Handle} (hp : p.handle? = some h) :
    p.configured? = some h.bus := by
  unfold Pc.handle? at hp
  split at hp
  · cases hp
    rfl
  · cases hp
    rfl
  · cases hp

theorem Pc.bus_mem_owns {p : Pc} {h : Handle} (hp : p.handle? = some h) :
    h.bus.obj ∈ p.owns := by
  unfold Pc.handle? at hp
  split at hp
  · cases hp
    simp [Pc.owns, Handle.objs]
  · cases hp
    simp [Pc.owns, Handle.objs]
  · cases hp

theorem Caller.return_bus {k : Caller} {h : Handle} {r : Result Unit} {b : CString}
    (hb : (k.return h r).1.bus? = some b) : b = h.bus := by
  unfold Caller.return at hb
  split at hb
  · exact (Option.some.inj hb).symm
  · cases hb
  · exact (Option.some.inj hb).symm
  · cases hb

theorem Edge.bus {p q : Pc} {o : Op} {freed : List Obj} (h : Edge p o q freed) {b : CString}
    (hb : q.bus? = some b) : p.bus? = some b ∨ o = .cstringNew (some b) := by
  cases h
  case cstringNew => exact .inr (Option.some.inj hb ▸ rfl)
  case reject | pollDone | timeout =>
    rw [Caller.return_bus hb]
    exact .inl rfl
  case dropBus d => cases d <;> cases hb
  all_goals first
    | exact .inl hb
    | cases hb

theorem Edge.configured {p q : Pc} {o : Op} {freed : List Obj} (h : Edge p o q freed)
    {b : CString} (hb : q.configured? = some b) :
    p.configured? = some b ∨ ∃ addr, p = .configuring b addr ∧ o = .configure b addr := by
  cases h
  case configure addr => exact .inr ⟨addr, Option.some.inj hb ▸ ⟨rfl, rfl⟩⟩
  case reject | pollDone | timeout =>
    rw [Caller.return_bus (Pc.bus_of_configured hb)]
    exact .inl rfl
  case dropBus d => cases d <;> cases hb
  all_goals first
    | exact .inl hb
    | cases hb

/-! ## Steps -/

section

variable {s t : Process} {a : Act} {j : Nat} {q : Pc} {b : CString}

theorem bus_before (h : step s a = some t) (hq : t.sessions[j]? = some q)
    (hb : q.bus? = some b) :
    (∃ p, s.sessions[j]? = some p ∧ p.bus? = some b) ∨ a = .op j (.cstringNew (some b)) := by
  rcases session_before h hq with hq | ⟨bus, addr, rfl⟩ | ⟨o, p, freed, rfl, hop⟩
  · exact .inl ⟨q, hq, hb⟩
  · cases hb
  · rcases hop.edge.bus hb with hp | rfl
    · exact .inl ⟨p, hop.before, hp⟩
    · exact .inr rfl

theorem configured_before (h : step s a = some t) (hq : t.sessions[j]? = some q)
    (hb : q.configured? = some b) :
    (∃ p, s.sessions[j]? = some p ∧ p.configured? = some b) ∨
      ∃ addr, a = .op j (.configure b addr) := by
  rcases session_before h hq with hq | ⟨bus, addr, rfl⟩ | ⟨o, p, freed, rfl, hop⟩
  · exact .inl ⟨q, hq, hb⟩
  · cases hb
  · rcases hop.edge.configured hb with hp | ⟨addr, _, rfl⟩
    · exact .inl ⟨p, hop.before, hp⟩
    · exact .inr ⟨addr, rfl⟩

/-- The pointer moves only to the non-empty string of a session that configures it. -/
theorem path_after (h : step s a = some t) :
    t.i2cIf = s.i2cIf ∨ ∃ i bus addr, a = .op i (.configure bus addr) ∧
      s.sessions[i]? = some (.configuring bus addr) ∧ bus.bytes ≠ [] ∧
      t.i2cIf = .cstring bus.number := by
  cases a with
  | openRefused =>
    obtain ⟨_, rfl⟩ := openRefused_step h
    exact .inl rfl
  | openSwap bus addr =>
    obtain ⟨_, rfl⟩ := openSwap_step h
    exact .inl rfl
  | callback c st =>
    obtain ⟨_, _, rfl⟩ := callback_step h
    exact .inl rfl
  | op i o =>
    obtain ⟨p, q, freed, hop⟩ := opStep_of_step h
    rw [hop.i2cIf]
    by_cases hsame : o.path s.i2cIf = s.i2cIf
    · exact .inl hsame
    · obtain ⟨bus, addr, rfl, rfl, hpath⟩ := hop.edge.path hsame
      refine .inr ⟨i, bus, addr, rfl, hop.before, ?_, hpath⟩
      rw [← bus.first_ne_zero_iff]
      intro hfirst
      apply hsame
      rw [Op.path, if_neg (not_not.mpr hfirst)]

end

/-! ## The strings of the active session -/

/-- A non-empty string has moved the pointer to itself, and an empty one never does. -/
structure PathOf (s : Process) : Prop where
  set : ∀ (i : Nat) (p : Pc) b, s.sessions[i]? = some p → p.configured? = some b →
    b.bytes ≠ [] → s.i2cIf = .cstring b.number
  keep : ∀ (i : Nat) (p : Pc) b, s.sessions[i]? = some p → p.bus? = some b →
    b.bytes = [] → s.i2cIf ≠ .cstring b.number

namespace PathOf

variable {s t : Process} {a : Act}

theorem start : PathOf init where
  set := by simp [init]
  keep := by simp [init]

theorem set_step (hs : PathOf s) (hone : SingleSession s) (h : Trustm.step s a = some t) {j : Nat}
    {q : Pc} {b : CString} (hq : t.sessions[j]? = some q) (hb : q.configured? = some b)
    (hne : b.bytes ≠ []) : t.i2cIf = .cstring b.number := by
  rcases configured_before h hq hb with ⟨p, hp, hpb⟩ | ⟨addr, rfl⟩
  · have hpath := hs.set j p b hp hpb hne
    rcases path_after h with hsame | ⟨i, bus, addr, rfl, hi, _, _⟩
    · rw [hsame]
      exact hpath
    · -- the session that configures would be a second active one
      obtain rfl := hone.unique hi hp rfl (Pc.active_of_bus (Pc.bus_of_configured hpb))
      obtain rfl := Option.some.inj (hi.symm.trans hp)
      cases hpb
  · obtain ⟨p, r, freed, hop⟩ := opStep_of_step h
    rw [hop.i2cIf, Op.path, if_pos (b.first_ne_zero_iff.mpr hne)]

theorem keep_step (hs : PathOf s) (hwf : Consistent s) (hone : SingleSession s)
    (h : Trustm.step s a = some t) {j : Nat} {q : Pc} {b : CString}
    (hq : t.sessions[j]? = some q) (hb : q.bus? = some b) (hempty : b.bytes = []) :
    t.i2cIf ≠ .cstring b.number := by
  rcases bus_before h hq hb with ⟨p, hp, hpb⟩ | rfl
  · have hpath := hs.keep j p b hp hpb hempty
    rcases path_after h with hsame | ⟨i, bus, addr, rfl, hi, hne, _⟩
    · rw [hsame]
      exact hpath
    · obtain rfl := hone.unique hi hp rfl (Pc.active_of_bus hpb)
      obtain rfl := Option.some.inj (hi.symm.trans hp)
      obtain rfl : bus = b := Option.some.inj hpb
      exact absurd hempty hne
  · -- a new string has a number that nothing points to
    obtain ⟨p, r, freed, hop⟩ := opStep_of_step h
    intro hpath
    rw [hop.i2cIf] at hpath
    have hold := hwf.pathOld b.number hpath
    have hnew := (hop.newsFresh b.obj (List.mem_singleton_self _)).1
    exact absurd hold (Nat.not_lt.mpr hnew)

theorem step (hs : PathOf s) (hwf : Consistent s) (hone : SingleSession s)
    (h : Trustm.step s a = some t) : PathOf t :=
  ⟨fun _ _ _ => hs.set_step hone h, fun _ _ _ => hs.keep_step hwf hone h⟩

end PathOf

theorem pathOf_of_noStaleRelease {as : List Act} (hrel : Meets step NoStaleRelease init as) :
    Always step PathOf init as := by
  have hsingle := SingleSession.of_noStaleRelease hrel
  apply always_of_step _ PathOf.start (hsingle.and (Consistent.always as)).meets
  rintro s a t hs ⟨⟨hone, hwf⟩, _⟩ h
  exact hs.step hwf hone h

/-! ## Handles with an empty string -/

/-- A live handle with an empty string has the pointer at the default. -/
def EmptyOnDefault (s : Process) : Prop :=
  ∀ (i : Nat) (p : Pc) b, s.sessions[i]? = some p → p.hasHandle = true →
    p.configured? = some b → b.bytes = [] → s.i2cIf = .default

theorem Edge.crypt_inv {p q : Pc} {n : Nat} {freed : List Obj}
    (h : Edge p (.create .crypt (some n)) q freed) :
    ∃ bus util, p = .creatingCrypt bus util ∧
      q = .running ⟨util, n, bus⟩ .openInner .storeBusy := by
  cases h
  exact ⟨_, _, rfl, rfl⟩

/-- While a handle is live nobody moves the pointer. -/
theorem path_eq_of_handle {s t : Process} {a : Act} (hone : SingleSession s)
    (h : step s a = some t) {j : Nat} {p : Pc} (hp : s.sessions[j]? = some p)
    (hhandle : p.hasHandle = true) : t.i2cIf = s.i2cIf := by
  rcases path_after h with hsame | ⟨i, bus, addr, rfl, hi, _, _⟩
  · exact hsame
  · obtain rfl := hone.unique hi hp rfl (Pc.active_of_hasHandle hhandle)
    obtain rfl := Option.some.inj (hi.symm.trans hp)
    cases hhandle

theorem EmptyOnDefault.step {s t : Process} {a : Act} (hs : EmptyOnDefault s)
    (hone : SingleSession s) (ha : EmptyBusOnDefault s a) (h : Trustm.step s a = some t) :
    EmptyOnDefault t := by
  intro j q b hq hhandle hb hempty
  rcases session_before h hq with hq | ⟨bus, addr, rfl⟩ | ⟨o, p, freed, rfl, hop⟩
  · rw [path_eq_of_handle hone h hq hhandle]
    exact hs j q b hq hhandle hb hempty
  · cases hhandle
  · rcases hop.edge.handle hhandle with hp | ⟨bus, util, n, rfl, rfl⟩
    · rw [path_eq_of_handle hone h hop.before hp]
      rcases hop.edge.configured hb with hpb | ⟨addr, rfl, _⟩
      · exact hs j p b hop.before hp hpb hempty
      · cases hp
    · -- the handle is built by this step
      obtain ⟨_, _, _, rfl⟩ := hop.edge.crypt_inv
      rw [hop.i2cIf]
      apply ha b _ hempty
      rw [hop.before]
      rcases hop.edge.configured hb with hpb | ⟨addr, hp, _⟩
      · exact hpb
      · cases hp

theorem busFresh_of_emptyOnDefault {s : Process} (hs : EmptyOnDefault s) (hpath : PathOf s)
    (hwf : Consistent s) : BusFresh s := by
  intro p hp h hh
  obtain ⟨i, hi⟩ := List.mem_iff_getElem?.mp hp
  have hb := Pc.configured_of_handle hh
  by_cases hempty : h.bus.bytes = []
  · exact .inl (hs i p h.bus hi (Option.isSome_of_mem hh) hb hempty)
  · exact .inr ⟨hpath.set i p h.bus hi hb hempty, hwf.owned_mem_live hi (Pc.bus_mem_owns hh)⟩

theorem busFresh_of_emptyBusOnDefault {as : List Act} (hrel : Meets step NoStaleRelease init as)
    (hempty : Meets step EmptyBusOnDefault init as) : Always step BusFresh init as := by
  have hsingle := SingleSession.of_noStaleRelease hrel
  have hdefault : Always step EmptyOnDefault init as := by
    apply always_of_step _ _ (hsingle.meets.and hempty)
    · rintro s a t hs ⟨⟨hone, _⟩, ha⟩ h
      exact hs.step hone ha h
    · intro i p b hp
      cases hp
  have hpath := pathOf_of_noStaleRelease hrel
  apply ((hdefault.and hpath).and (Consistent.always as)).mono
  rintro s ⟨⟨hdefault, hpath⟩, hwf⟩
  exact busFresh_of_emptyOnDefault hdefault hpath hwf

/-- **The pointer is never stale, exactly when empty strings meet the default.** -/
theorem busFresh_iff_emptyBusOnDefault {as : List Act}
    (hrel : Meets step NoStaleRelease init as) :
    Always step BusFresh init as ↔ Meets step EmptyBusOnDefault init as := by
  have hpath := pathOf_of_noStaleRelease hrel
  constructor
  · intro hfresh
    apply (hfresh.and hpath).meets.mono
    rintro s a ⟨⟨_, hpath⟩, t, ht, hfresh, _⟩
    unfold EmptyBusOnDefault
    split
    · rename_i i n
      intro bus hbus hempty
      obtain ⟨p, q, freed, hop⟩ := opStep_of_step ht
      obtain ⟨bus', util, rfl, rfl⟩ := hop.edge.crypt_inv
      rw [hop.before] at hbus
      obtain rfl : bus' = bus := Option.some.inj hbus
      have hkeep := hpath.keep i _ bus' hop.before rfl hempty
      rcases hfresh _ (List.mem_of_getElem? hop.session) _ rfl with hdefault | ⟨hown, _⟩
      · rw [hop.i2cIf] at hdefault
        exact hdefault
      · rw [hop.i2cIf] at hown
        exact absurd hown hkeep
    · trivial
  · exact busFresh_of_emptyBusOnDefault hrel

/-! ## Two opens -/

/-- The opened handle of session 0 is dropped. -/
def openedAndDropped : List Act :=
  openedDefault ++
    [.op 0 .enterDrop, .op 0 (.destroy ⟨.crypt, 2⟩), .op 0 (.destroy ⟨.util, 1⟩),
      .op 0 .storeOpen, .op 0 .freeBus]

theorem busFresh_iff_emptyBusOnDefault_reopen :
    Always step BusFresh init (openedAndDropped ++ openDefault 1 4) :=
  (busFresh_iff_emptyBusOnDefault (by decide)).mpr (by decide)

/-- The second `open` has an empty bus string. -/
def emptyReopen : List Act := openedAndDropped ++ openBus 1 ⟨4, [], by decide⟩

/-- The new handle is about to open the application with the freed string of the old one. -/
theorem not_busFresh_emptyReopen :
    (history emptyReopen).map (fun s => (s.i2cIf, s.live)) =
        some (.cstring 0, [.inst ⟨.crypt, 6⟩, .inst ⟨.util, 5⟩, .cstring 4]) ∧
      Meets step NoStaleRelease init emptyReopen ∧ ¬ Always step BusFresh init emptyReopen := by
  decide

end Trustm
