import Trustm.Session.Balance

/-!
# Objects without the guard

`OPEN` is there to keep two handles apart, and a stale release defeats it. What a session creates
is nevertheless its own, however the threads interleave and whatever the library answers.

* `SafeUse`: the objects that a step of a session names are alive, and only its own end with it.
* `SafeCompletion` and `SafePath` are about what the library touches by itself: the pointers of a
  command at its completion, and the string behind `i2c_if` while it takes a command. These need
  the conditions of the modules on lifetimes and on the bus pointer.
* `safe_of_history` puts them together with the owners of the living objects and the number of
  calls that create and destroy an instance.
-/

namespace Trustm

open Run Ownership

/-- What a step does right with the objects it names. What the library reaches by itself through
pointers it has kept is left to `SafeCompletion` and `SafePath`. -/
structure SafeUse (s : Process) (a : Act) : Prop where
  destroy : ∀ i x, a = .op i (.destroy x) → .inst x ∈ s.live
  /-- The instance of an accepted command and the buffers it keeps are alive. -/
  issue : ∀ i c, a = .op i (.issue c) → ∀ x ∈ c.objs, x ∈ s.live
  reject : ∀ i x code, a = .op i (.reject x code) → .inst x ∈ s.live
  configure : ∀ i dev addr, a = .op i (.configure dev addr) → dev.obj ∈ s.live
  /-- The strings and buffers that go out of scope with the step are alive up to it. -/
  frees : ∀ i o p q freed, a = .op i o → s.sessions[i]? = some p → p.next o = some (q, freed) →
    ∀ x ∈ freed, x ∈ s.live
  /-- What ends with a step was owned by the session that took it. -/
  isolated : ∀ t x, step s a = some t → x ∈ s.live → x ∉ t.live →
    ∃ i o p, a = .op i o ∧ s.sessions[i]? = some p ∧ x ∈ p.owns

/-- The library completes a command while its instance and its buffers are alive. -/
def SafeCompletion (s : Process) : Act → Prop
  | .callback c _ => ∀ x ∈ c.objs, x ∈ s.live
  | _ => True

/-- A string that `i2c_if` points to is alive while the library takes a command; the first one
of a handle opens the bus. -/
def SafePath (s : Process) : Act → Prop
  | .op _ (.issue _) | .op _ (.reject _ _) => ∀ n, s.i2cIf = .cstring n → .cstring n ∈ s.live
  | _ => True

/-! ## The objects of a session -/

section

variable {p q : Pc} {freed : List Obj}

theorem Edge.issue_objs {c : Command} (h : Edge p (.issue c) q freed) :
    ∀ x ∈ c.objs, x ∈ p.owns := by
  intro x hx
  cases h with
  | issue hinst hbufs =>
    rename_i hd k
    rcases List.mem_cons.mp hx with rfl | hx
    · rw [hinst]
      exact List.mem_append_right _ (hd.inst_mem_objs _)
    · rw [hbufs] at hx
      exact List.mem_append_left _ hx

theorem Edge.configure_owned {dev : CString} {addr : UInt8}
    (h : Edge p (.configure dev addr) q freed) : dev.obj ∈ p.owns := by
  cases h
  exact List.mem_cons_self

theorem Edge.reject_inv {x : Inst} {code : UInt16} (h : Edge p (.reject x code) q freed) :
    ∃ h k, p = .running h k .call := by
  cases h
  exact ⟨_, _, rfl⟩

/-- An access ends what its session owned or has just created. -/
theorem Edge.ends_owned {o : Op} (h : Edge p o q freed) {x : Obj} (hx : x ∈ o.olds ++ freed) :
    x ∈ p.owns ∨ x ∈ o.news := by
  have hbal := h.balance x
  have hpos := List.count_pos_iff.mpr hx
  by_cases hp : x ∈ p.owns
  · exact Or.inl hp
  · rw [List.count_eq_zero.mpr hp] at hbal
    exact Or.inr (List.count_pos_iff.mp (by omega))

theorem Edge.freed_owned {o : Op} (h : Edge p o q freed) {x : Obj} (hx : x ∈ freed) :
    x ∈ p.owns := by
  rcases h.ends_owned (List.mem_append_right _ hx) with hp | hnew
  · exact hp
  · -- no step creates an object and frees another
    cases h <;>
      first
      | exact absurd hx List.not_mem_nil
      | exact absurd hnew List.not_mem_nil

end

theorem OpStep.isolated {s t : Process} {i : Nat} {o : Op} {p q : Pc} {freed : List Obj}
    (h : OpStep s i o t p q freed) (hs : Consistent s) {x : Obj} (hx : x ∈ s.live)
    (hgone : x ∉ t.live) : x ∈ p.owns := by
  rw [h.live] at hgone
  have hends : x ∈ o.olds ++ freed := by
    by_contra hkept
    exact hgone (List.mem_diff_of_mem (List.mem_append_right _ hx) hkept)
  rcases h.edge.ends_owned hends with hp | hnew
  · exact hp
  · -- a new object was not alive before
    have hfresh := (h.newsFresh x hnew).1
    have hold := hs.liveOld x hx
    omega

theorem safeUse_of_step {s t : Process} {a : Act} (hs : Consistent s) (h : step s a = some t) :
    SafeUse s a where
  destroy := by
    rintro i x rfl
    obtain ⟨p, q, freed, hop⟩ := opStep_of_step h
    exact hs.owned_mem_live hop.before hop.edge.destroy_owned
  issue := by
    rintro i c rfl x hx
    obtain ⟨p, q, freed, hop⟩ := opStep_of_step h
    exact hs.owned_mem_live hop.before (hop.edge.issue_objs x hx)
  reject := by
    rintro i x code rfl
    obtain ⟨p, q, freed, hop⟩ := opStep_of_step h
    exact hs.owned_mem_live hop.before hop.edge.reject_owned
  configure := by
    rintro i dev addr rfl
    obtain ⟨p, q, freed, hop⟩ := opStep_of_step h
    exact hs.owned_mem_live hop.before hop.edge.configure_owned
  frees := by
    intro i o p q freed ha hp hnext x hx
    exact hs.owned_mem_live hp ((edge_of_next hnext).freed_owned hx)
  isolated := by
    intro u x hu hx hgone
    cases a with
    | op i o =>
      obtain ⟨p, q, freed, hop⟩ := opStep_of_step hu
      exact ⟨i, o, p, rfl, hop.before, hop.isolated hs hx hgone⟩
    | openRefused =>
      obtain ⟨_, rfl⟩ := openRefused_step hu
      exact absurd hx hgone
    | openSwap bus addr =>
      obtain ⟨_, rfl⟩ := openSwap_step hu
      exact absurd hx hgone
    | callback c st =>
      obtain ⟨_, _, rfl⟩ := callback_step hu
      exact absurd hx hgone

/-! ## The pointers of the library -/

theorem safeCompletion_of_noEarlyTimeout {as : List Act} (hone : Always step OneHandle init as)
    (hearly : Meets step NoEarlyTimeout init as) : Meets step SafeCompletion init as := by
  apply ((attended_of_noEarlyTimeout hone hearly).and (Consistent.always as)).meets.mono
  rintro s a ⟨⟨hattended, hwf⟩, t, ht, _⟩
  unfold SafeCompletion
  split
  · rename_i c st
    exact (hattended.lifetime hwf c (callback_step ht).1).2
  · trivial

/-- A session at its call has a handle. -/
theorem BusFresh.path_live {s : Process} (hs : BusFresh s) {i : Nat} {h : Handle} {k : Caller}
    (hi : s.sessions[i]? = some (.running h k .call)) {n : Nat} (hn : s.i2cIf = .cstring n) :
    .cstring n ∈ s.live := by
  rcases hs _ (List.mem_of_getElem? hi) h rfl with hdefault | ⟨hown, hlive⟩
  · rw [hdefault] at hn
    cases hn
  · rw [hown] at hn
    cases hn
    exact hlive

theorem safePath_of_emptyBusOnDefault {as : List Act} (hrel : Meets step NoStaleRelease init as)
    (hempty : Meets step EmptyBusOnDefault init as) : Meets step SafePath init as := by
  apply (busFresh_of_emptyBusOnDefault hrel hempty).meets.mono
  rintro s a ⟨hfresh, t, ht, _⟩
  unfold SafePath
  split
  · obtain ⟨p, q, freed, hop⟩ := opStep_of_step ht
    obtain ⟨h, k, rfl, _⟩ := hop.edge.issue_inv
    intro n hn
    exact hfresh.path_live hop.before hn
  · obtain ⟨p, q, freed, hop⟩ := opStep_of_step ht
    obtain ⟨h, k, rfl⟩ := hop.edge.reject_inv
    intro n hn
    exact hfresh.path_live hop.before hn
  · trivial

/-! ## All together -/

/-- **Sessions keep to living objects of their own in every interleaving.** The library keeps to
living objects where no `run` gives up on its command, and no empty string finds a stale path. -/
theorem safe_of_history {as : List Act} {s : Process} (h : history as = some s) :
    Meets step SafeUse init as ∧
      (∀ x ∈ s.live, ∃! i : Nat, ∃ p, s.sessions[i]? = some p ∧ x ∈ p.owns) ∧
      (∀ x, as.countP (destroys x) ≤ as.countP (creates x) ∧ as.countP (creates x) ≤ 1) ∧
      (Always step OneHandle init as → Meets step NoEarlyTimeout init as →
        Meets step SafeCompletion init as) ∧
      (Meets step NoStaleRelease init as → Meets step EmptyBusOnDefault init as →
        Meets step SafePath init as) := by
  have hwf := Consistent.of_history h
  have hledger := ledger_of_history h
  refine ⟨?_, ?_, ?_, safeCompletion_of_noEarlyTimeout, safePath_of_emptyBusOnDefault⟩
  · apply (Consistent.always as).meets.mono
    rintro u a ⟨hu, t, ht, _⟩
    exact safeUse_of_step hu ht
  · intro x hx
    obtain ⟨p, hp, hown⟩ := hwf.accounted.exists_owner hx
    obtain ⟨i, hi⟩ := List.mem_iff_getElem?.mp hp
    refine ⟨i, ⟨p, hi, hown⟩, ?_⟩
    rintro j ⟨q, hj, hq⟩
    exact hwf.accounted.owner_unique hj hi hq hown
  · intro x
    have hbalance := hledger.balance x
    exact ⟨by omega, hledger.once x⟩

/-- The first part also where the guard has failed, the last two on an open with a method. -/
theorem safe_of_history_overlappingOpens :
    Meets step SafeUse init overlappingOpens ∧ Meets step SafeCompletion init readThenVerify ∧
      Meets step SafePath init readThenVerify := by
  have hfailed : history overlappingOpens = some _ := rfl
  have hverified : history readThenVerify = some _ := rfl
  obtain ⟨_, _, _, hcompletion, hpath⟩ := safe_of_history hverified
  exact ⟨(safe_of_history hfailed).1, hcompletion (by decide) (by decide),
    hpath (by decide) (by decide)⟩

end Trustm
