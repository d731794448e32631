import Trustm.Check.Answers
import Trustm.Methods.Outcomes
import Trustm.Usage.Process

/-!
# Client programs

A program in one thread over the methods of `Trustm`, with every call of the API run as a whole,
against a library that answers as it likes. This is the view of the method model; the process
model sees the single accesses behind it.

* `Request` and `serve`: what a program may ask for, and what happens then. A handle is counted
  while it is alive; a request that needs one is refused without it, as the types do.
* `client_trace_tfae`: the orders of library calls of the programs, those of one thread in the
  process model and those of the automaton are the same.
-/

namespace Trustm

open Run Outcome Effect

/-! ## What a host has shown -/

def LibCommand.purpose : LibCommand → Purpose
  | .openApplication _ => .openApplication
  | .closeApplication _ => .closeApplication
  | c => .method c.which

theorem LibCommand.purpose_of_application {c : LibCommand} (h : c.application = false) :
    c.purpose = .method c.which := by
  cases c with
  | openApplication => cases h
  | closeApplication => cases h
  | _ => rfl

def LibCall.event (c : LibCall) (r : Reply) : Event :=
  match c with
  | .configure dev addr => .configure dev addr
  | .utilCreate => .create .util r.null
  | .cryptCreate => .create .crypt r.null
  | .utilDestroy => .destroy .util
  | .cryptDestroy => .destroy .crypt
  | .command c => .command c.purpose r.completion

/-- The calls made so far, as events. -/
def Host.events (s : Host) : List Event := s.calls.map fun p => p.1.event p.2

@[simp] theorem Host.events_start : Host.start.events = [] := rfl

@[simp] theorem Host.events_called (s : Host) (c : LibCall) (r : Reply) :
    (s.called c r).events = s.events ++ [c.event r] := List.map_append

@[simp] theorem Host.events_ran (s : Host) (c : LibCommand) (r : Reply) :
    (s.ran c r).events = s.events ++ [.command c.purpose r.completion] := List.map_append

/-! ## Programs -/

inductive Request where
  | open (bus : List UInt8) (addr : UInt8)
  | call (m : Method)
  | close
  /-- The handle goes out of scope. -/
  | drop

structure Client where
  host : Host
  /-- The handles alive. -/
  handles : Nat

def Client.start : Client := ⟨.start, 0⟩

section

variable (chip : Chip)

/-- One request of a program. -/
def serve (c : Client) : Request → Option Client
  | .open bus addr =>
    match chip.open bus addr c.host with
    | (.ok (), host) => some ⟨host, c.handles + 1⟩
    | (_, host) => some ⟨host, c.handles⟩
  | .call m => if 0 < c.handles then some ⟨(m.perform chip c.host).2, c.handles⟩ else none
  | .close => if 0 < c.handles then some ⟨(chip.close c.host).2, c.handles - 1⟩ else none
  | .drop => if 0 < c.handles then some ⟨(chip.drop c.host).2, c.handles - 1⟩ else none

section Serve

variable {chip : Chip} {c d : Client} {bus : List UInt8} {addr : UInt8} {t : Host}

theorem serve_open_of_ok (h : chip.open bus addr c.host = (.ok (), t)) :
    serve chip c (.open bus addr) = some ⟨t, c.handles + 1⟩ := by
  rw [serve, h]

theorem serve_open_of_err {e : Error} (h : chip.open bus addr c.host = (.err e, t)) :
    serve chip c (.open bus addr) = some ⟨t, c.handles⟩ := by
  rw [serve, h]

theorem serve_call_iff {m : Method} : serve chip c (.call m) = some d ↔
    0 < c.handles ∧ d = ⟨(m.perform chip c.host).2, c.handles⟩ := by
  rw [serve, Option.ite_none_right_eq_some, Option.some.injEq, eq_comm (a := d)]

theorem serve_close_iff : serve chip c .close = some d ↔
    0 < c.handles ∧ d = ⟨(chip.close c.host).2, c.handles - 1⟩ := by
  rw [serve, Option.ite_none_right_eq_some, Option.some.injEq, eq_comm (a := d)]

theorem serve_drop_iff : serve chip c .drop = some d ↔
    0 < c.handles ∧ d = ⟨(chip.drop c.host).2, c.handles - 1⟩ := by
  rw [serve, Option.ite_none_right_eq_some, Option.some.injEq, eq_comm (a := d)]

end Serve

/-! ## `open` -/

/-- What `open` shows from call number `n` on, and whether it succeeds. -/
def Chip.opening (n : Nat) (bus : List UInt8) (addr : UInt8) : List Event × Bool :=
  if 0 ∈ bus then ([], false)
  else if (chip.reply (n + 1)).null then ([.configure bus addr, .create .util true], false)
  else if (chip.reply (n + 2)).null then
    ([.configure bus addr, .create .util false, .create .crypt true, .destroy .util], false)
  else
    let c := (chip.reply (n + 3)).completion
    if c.result = .ok () then
      ([.configure bus addr, .create .util false, .create .crypt false,
        .command .openApplication c], true)
    else
      ([.configure bus addr, .create .util false, .create .crypt false,
        .command .openApplication c, .destroy .crypt, .destroy .util], false)

variable {chip}

@[simp] theorem Chip.events_dropped (s : Host) :
    (chip.dropped s).events = s.events ++ [.destroy .crypt, .destroy .util] := by
  rw [Host.events, chip.calls_dropped, List.map_append]
  rfl

theorem Chip.openInner_opening (bus : List UInt8) (addr : UInt8) (s : Host) :
    ∃ r t, chip.openInner bus addr s = (r, t) ∧
      t.events = s.events ++ (chip.opening s.calls.length bus addr).1 ∧
      ((chip.opening s.calls.length bus addr).2 = true ∧ r = .ok () ∧ t.OPEN = s.OPEN ∨
        (chip.opening s.calls.length bus addr).2 = false ∧ ∃ e, r = .err e) := by
  unfold Chip.openInner
  generalize hn : s.calls.length = n
  by_cases hnul : 0 ∈ bus
  · rw [if_pos hnul, Chip.opening, if_pos hnul]
    exact ⟨_, s, rfl, (List.append_nil _).symm, Or.inr ⟨rfl, _, rfl⟩⟩
  · simp only [Chip.opening, if_neg hnul, chip.call_bind]
    generalize hs₁ : s.called (.configure bus addr) (chip.next s) = s₁
    have hlen₁ : s₁.calls.length = n + 1 := by rw [← hs₁, Host.length_called, hn]
    have hevents₁ : s₁.events = s.events ++ [.configure bus addr] := by
      rw [← hs₁, Host.events_called]
      rfl
    rw [chip.next_eq s₁ _ hlen₁]
    by_cases hutil : (chip.reply (n + 1)).null = true
    · rw [if_pos hutil, if_pos hutil]
      refine ⟨_, s₁.called .utilCreate (chip.reply (n + 1)), rfl, ?_, Or.inr ⟨rfl, _, rfl⟩⟩
      rw [Host.events_called, hevents₁, LibCall.event, hutil, List.append_assoc]
      rfl
    · rw [if_neg hutil, if_neg hutil, chip.call_bind]
      generalize hs₂ : s₁.called .utilCreate (chip.reply (n + 1)) = s₂
      have hlen₂ : s₂.calls.length = n + 2 := by rw [← hs₂, Host.length_called, hlen₁]
      have hevents₂ : s₂.events = s.events ++ [.configure bus addr, .create .util false] := by
        rw [← hs₂, Host.events_called, hevents₁, LibCall.event, (Bool.not_eq_true _).mp hutil,
          List.append_assoc]
        rfl
      rw [chip.next_eq s₂ _ hlen₂]
      by_cases hcrypt : (chip.reply (n + 2)).null = true
      · rw [if_pos hcrypt, if_pos hcrypt]
        refine ⟨_, (s₂.called .cryptCreate (chip.reply (n + 2))).called .utilDestroy _, rfl, ?_,
          Or.inr ⟨rfl, _, rfl⟩⟩
        rw [Host.events_called, Host.events_called, hevents₂, LibCall.event, hcrypt,
          List.append_assoc, List.append_assoc]
        rfl
      · rw [if_neg hcrypt, if_neg hcrypt]
        generalize hs₃ : s₂.called .cryptCreate (chip.reply (n + 2)) = s₃
        have hlen₃ : s₃.calls.length = n + 3 := by rw [← hs₃, Host.length_called, hlen₂]
        have hnext := chip.next_eq s₃ _ hlen₃
        have hevents₃ : s₃.events =
            s.events ++ [.configure bus addr, .create .util false, .create .crypt false] := by
          rw [← hs₃, Host.events_called, hevents₂, LibCall.event, (Bool.not_eq_true _).mp hcrypt,
            List.append_assoc]
          rfl
        have hopen₃ : s₃.OPEN = s.OPEN := by
          rw [← hs₃, ← hs₂, ← hs₁]
          rfl
        cases hresult : (chip.next s₃).completion.result with
        | ok u =>
          rw [bind_of_ok (attempt_of_ok (chip.run_of_ok hresult)), ← hnext, if_pos hresult]
          refine ⟨_, _, rfl, ?_, Or.inl ⟨rfl, rfl, hopen₃⟩⟩
          rw [Host.events_ran, hevents₃, List.append_assoc]
          rfl
        | error e =>
          rw [bind_of_ok (attempt_of_err (chip.run_of_error hresult)), ← hnext,
            if_neg (by rw [hresult]; simp)]
          refine ⟨_, chip.dropped _, rfl, ?_, Or.inr ⟨rfl, e, rfl⟩⟩
          rw [Chip.events_dropped, Host.events_ran, hevents₃, List.append_assoc,
            List.append_assoc]
          rfl

/-- The guard, and the error arm that releases it. -/
theorem Chip.open_opening (bus : List UInt8) (addr : UInt8) {s : Host} (hopen : s.OPEN = false) :
    ∃ r t, chip.open bus addr s = (r, t) ∧
      t.events = s.events ++ (chip.opening s.calls.length bus addr).1 ∧
      t.OPEN = (chip.opening s.calls.length bus addr).2 ∧
      (r = .ok () ∧ t.OPEN = true ∨ (∃ e, r = .err e) ∧ t.OPEN = false) := by
  obtain ⟨o, st, calls⟩ := s
  cases hopen
  obtain ⟨r, t, hinner, hevents, ⟨hok, rfl, hset⟩ | ⟨hfails, e, rfl⟩⟩ :=
    chip.openInner_opening bus addr ⟨true, st, calls⟩
  · refine ⟨.ok (), t, ?_, hevents, hset.trans hok.symm, Or.inl ⟨rfl, hset⟩⟩
    change (attempt (chip.openInner bus addr) >>= _) ⟨true, st, calls⟩ = _
    rw [bind_of_ok (attempt_of_ok hinner)]
    rfl
  · refine ⟨.err e, { t with OPEN := false }, ?_, hevents, hfails.symm, Or.inr ⟨⟨e, rfl⟩, rfl⟩⟩
    change (attempt (chip.openInner bus addr) >>= _) ⟨true, st, calls⟩ = _
    rw [bind_of_ok (attempt_of_err hinner)]
    rfl

/-- `AlreadyOpen` leaves the host as it was. -/
theorem Chip.open_refused (bus : List UInt8) (addr : UInt8) {s : Host} (hopen : s.OPEN = true) :
    chip.open bus addr s = (.err .alreadyOpen, s) := by
  obtain ⟨o, st, calls⟩ := s
  cases hopen
  rfl

/-- Whatever the answers, `open` is a call of the API or shows nothing. -/
theorem Chip.opening_calls (n : Nat) (bus : List UInt8) (addr : UInt8) :
    Calls .idle (chip.opening n bus addr).1 (.resting (chip.opening n bus addr).2) := by
  have hone {es : List Event} {v : Stage} (h : Call .idle es v) : Calls .idle es v := by
    rw [← List.append_nil es]
    exact .cons h .nil
  unfold Chip.opening
  by_cases hnul : 0 ∈ bus
  · rw [if_pos hnul]
    exact .nil
  · rw [if_neg hnul]
    split
    · exact hone (.utilNull hnul)
    · split
      · exact hone (.cryptNull hnul)
      · dsimp only
        split
        · rename_i hc
          exact hone (.opens hnul hc)
        · rename_i hc
          exact hone (.openFails hnul hc)

/-! ## What programs show -/

theorem Chip.close_state (s : Host) :
    (chip.close s).2 = chip.dropped (s.ran (.closeApplication 0) (chip.next s)) := by
  rcases chip.close_cases s with ⟨_, h⟩ | ⟨_, e, h⟩ <;> rw [h]

/-- The calls so far are calls of the API, and the handles are those that `OPEN` counts. -/
structure Client.Kept (c : Client) : Prop where
  calls : Calls .idle c.host.events (.resting c.host.OPEN)
  handles : c.handles = c.host.OPEN.toNat

theorem Client.Kept.opened {c : Client} (h : c.Kept) (hpos : 0 < c.handles) :
    c.host.OPEN = true := by
  rw [h.handles] at hpos
  cases hopen : c.host.OPEN with
  | false =>
    rw [hopen] at hpos
    cases hpos
  | true => rfl

theorem Client.Kept.start : Client.start.Kept := ⟨.nil, rfl⟩

theorem Client.Kept.open {c d : Client} {bus : List UInt8} {addr : UInt8} (hc : c.Kept)
    (h : serve chip c (.open bus addr) = some d) : d.Kept := by
  cases hopen : c.host.OPEN with
  | true =>
    rw [serve_open_of_err (Chip.open_refused bus addr hopen)] at h
    cases h
    exact hc
  | false =>
    have hcalls := hc.calls
    have hhandles := hc.handles
    rw [hopen] at hcalls hhandles
    obtain ⟨r, t, hr, hevents, hset, hcases⟩ := chip.open_opening bus addr hopen
    have hall := hcalls.append (chip.opening_calls c.host.calls.length bus addr)
    rw [← hevents, ← hset] at hall
    rcases hcases with ⟨rfl, ht⟩ | ⟨⟨e, rfl⟩, ht⟩
    · rw [serve_open_of_ok hr] at h
      cases h
      exact ⟨hall, by rw [ht, hhandles]; rfl⟩
    · rw [serve_open_of_err hr] at h
      cases h
      exact ⟨hall, by rw [ht, hhandles]⟩

/-- A handle that is alive is used for one call of the API. -/
theorem Client.Kept.used {c : Client} {es : List Event} {b : Bool} {t : Host} {n : Nat}
    (hc : c.Kept) (hpos : 0 < c.handles) (hcall : Call .opened es (.resting b))
    (hevents : t.events = c.host.events ++ es) (hopen : t.OPEN = b) (hn : n = b.toNat) :
    (Client.mk t n).Kept := by
  have hcalls := hc.calls
  rw [hc.opened hpos] at hcalls
  have hall := hcalls.snoc hcall
  rw [← hevents, ← hopen] at hall
  exact ⟨hall, by rw [hn, hopen]⟩

theorem Client.Kept.handles_eq_one {c : Client} (hc : c.Kept) (hpos : 0 < c.handles) :
    c.handles = 1 := by
  rw [hc.handles, hc.opened hpos]
  rfl

theorem Client.Kept.serve {c d : Client} {r : Request} (hc : c.Kept)
    (h : Trustm.serve chip c r = some d) : d.Kept := by
  cases r with
  | «open» bus addr => exact hc.open h
  | call m =>
    obtain ⟨hpos, rfl⟩ := serve_call_iff.mp h
    rcases m.perform_issues chip c.host with hsame | ⟨k, hk, hran, _⟩
    · rw [hsame]
      exact hc
    · rw [hran]
      refine hc.used (b := true) hpos (.method k.which (chip.next c.host).completion) ?_
        (hc.opened hpos) (hc.handles_eq_one hpos)
      rw [Host.events_ran, LibCommand.purpose_of_application hk.2.1]
  | close =>
    obtain ⟨hpos, rfl⟩ := serve_close_iff.mp h
    rw [chip.close_state, hc.handles_eq_one hpos]
    refine hc.used (b := false) hpos (.close (chip.next c.host).completion) ?_ rfl rfl
    rw [chip.events_dropped, Host.events_ran, List.append_assoc]
    rfl
  | drop =>
    obtain ⟨hpos, rfl⟩ := serve_drop_iff.mp h
    rw [chip.drop_apply, hc.handles_eq_one hpos]
    exact hc.used (b := false) hpos .drop (chip.events_dropped c.host) rfl rfl

theorem Client.Kept.of_exec {rs : List Request} {c : Client}
    (h : exec (Trustm.serve chip) .start rs = some c) : c.Kept :=
  invariant (fun _ _ _ hc hserve => hc.serve hserve) .start h

/-! ## Every order is shown -/

/-- The answer that an event tells of. -/
def Event.reply : Event → Reply
  | .create _ null => ⟨null, .silent, [], 0⟩
  | .command _ c => ⟨false, c, [], 0⟩
  | .configure _ _ | .destroy _ => ⟨false, .silent, [], 0⟩

/-- From call number `n` on the library answers as `es` tells. -/
def Answers (chip : Chip) (n : Nat) (es : List Event) : Prop :=
  ∀ i e, es[i]? = some e → chip.reply (n + i) = e.reply

theorem exists_answers (es : List Event) : ∃ chip, Answers chip 0 es := by
  refine ⟨⟨fun i => (es[i]?.getD (.destroy .util)).reply⟩, ?_⟩
  intro i e he
  rw [Nat.zero_add]
  change (es[i]?.getD (.destroy .util)).reply = e.reply
  rw [he]
  rfl

theorem Answers.append {n : Nat} {es fs : List Event} (h : Answers chip n (es ++ fs)) :
    Answers chip n es ∧ Answers chip (n + es.length) fs := by
  constructor
  · intro i e he
    apply h i e
    rw [List.getElem?_append_left (List.getElem?_eq_some_iff.mp he).1]
    exact he
  · intro i e he
    rw [Nat.add_assoc]
    apply h (es.length + i) e
    rw [List.getElem?_append_right (Nat.le_add_right _ _), Nat.add_sub_cancel_left]
    exact he

theorem Host.length_events (s : Host) : s.events.length = s.calls.length := List.length_map _

/-- A method for either instance. -/
def Method.sample : Which → Method
  | .util => .updateCounter 0 0
  | .crypt => .hashSha256Oid 0 0 0

theorem Method.sample_perform (w : Which) (s : Host) :
    ((Method.sample w).perform chip s).2.events =
      s.events ++ [.command (.method w) (chip.next s).completion] := by
  have hstate : ∃ c, c.purpose = .method w ∧
      ((Method.sample w).perform chip s).2 = s.ran c (chip.next s) := by
    cases w with
    | util =>
      refine ⟨.updateCount 0 0, rfl, ?_⟩
      exact (state_listing _ _ s).trans (state_run (fun _ _ => rfl) s)
    | crypt =>
      refine ⟨.hash OPTIGA_HASH_TYPE_SHA_256 OPTIGA_CRYPT_OID_DATA.toUInt8 (.inOptiga 0 0 0)
        (List.replicate 32 0), rfl, ?_⟩
      exact (state_listing _ _ s).trans (state_run (fun _ _ => rfl) s)
  obtain ⟨c, hc, hstate⟩ := hstate
  rw [hstate, Host.events_ran, hc]

section Opening

variable {n i : Nat} {es : List Event} {w : Which} {k : Purpose} {c : Completion}

theorem Answers.null (h : Answers chip n es) (he : es[i]? = some (.create w true)) :
    (chip.reply (n + i)).null = true := congrArg Reply.null (h i _ he)

theorem Answers.created (h : Answers chip n es) (he : es[i]? = some (.create w false)) :
    ¬ (chip.reply (n + i)).null = true := by
  rw [h i _ he]
  exact Bool.false_ne_true

theorem Answers.completion (h : Answers chip n es) (he : es[i]? = some (.command k c)) :
    (chip.reply (n + i)).completion = c := congrArg Reply.completion (h i _ he)

/-- The opening that the answers tell of. -/
theorem Answers.opening {v : Stage} (h : Answers chip n es) (hcall : Call .idle es v) :
    ∃ bus addr, (chip.opening n bus addr).1 = es := by
  cases hcall with
  | utilNull hbus =>
    rename_i bus addr
    refine ⟨bus, addr, ?_⟩
    rw [Chip.opening, if_neg hbus, if_pos (h.null (i := 1) rfl)]
  | cryptNull hbus =>
    rename_i bus addr
    refine ⟨bus, addr, ?_⟩
    rw [Chip.opening, if_neg hbus, if_neg (h.created (i := 1) rfl), if_pos (h.null (i := 2) rfl)]
  | openFails hbus hc =>
    rename_i bus addr c
    refine ⟨bus, addr, ?_⟩
    rw [Chip.opening, if_neg hbus, if_neg (h.created (i := 1) rfl),
      if_neg (h.created (i := 2) rfl), h.completion (i := 3) rfl]
    exact congrArg Prod.fst (if_neg hc)
  | opens hbus hc =>
    rename_i bus addr c
    refine ⟨bus, addr, ?_⟩
    rw [Chip.opening, if_neg hbus, if_neg (h.created (i := 1) rfl),
      if_neg (h.created (i := 2) rfl), h.completion (i := 3) rfl]
    exact congrArg Prod.fst (if_pos hc)

end Opening

/-- A program can make every call of the API, with the outcome that the answers tell of. -/
theorem exists_serve {c : Client} {es : List Event} {u v : Stage} (hc : c.Kept)
    (hu : u = .resting c.host.OPEN) (hcall : Call u es v)
    (hanswers : Answers chip c.host.calls.length es) :
    ∃ r d, serve chip c r = some d ∧ d.host.events = c.host.events ++ es := by
  cases hopen : c.host.OPEN with
  | false =>
    rw [hopen] at hu
    subst hu
    obtain ⟨bus, addr, hes⟩ := hanswers.opening hcall
    obtain ⟨r, t, hr, hevents, _, hcases⟩ := chip.open_opening bus addr hopen
    rw [hes] at hevents
    rcases hcases with ⟨rfl, _⟩ | ⟨⟨e, rfl⟩, _⟩
    · exact ⟨_, _, serve_open_of_ok hr, hevents⟩
    · exact ⟨_, _, serve_open_of_err hr, hevents⟩
  | true =>
    rw [hopen] at hu
    have hpos : 0 < c.handles := by
      rw [hc.handles, hopen]
      exact Nat.one_pos
    have hnext (e : Event) (he : es[0]? = some e) : chip.next c.host = e.reply := hanswers 0 e he
    cases hcall with
    | method w k =>
      refine ⟨_, _, serve_call_iff.mpr ⟨hpos, rfl⟩, (Method.sample_perform w c.host).trans ?_⟩
      rw [hnext _ rfl]
      rfl
    | close k =>
      refine ⟨_, _, serve_close_iff.mpr ⟨hpos, rfl⟩, ?_⟩
      rw [chip.close_state, chip.events_dropped, Host.events_ran, hnext _ rfl, List.append_assoc]
      rfl
    | drop => exact ⟨_, _, serve_drop_iff.mpr ⟨hpos, rfl⟩, chip.events_dropped c.host⟩
    | _ => cases hu

theorem exists_exec_of_calls {c : Client} {es : List Event} {u v : Stage} (hc : c.Kept)
    (hu : u = .resting c.host.OPEN) (hcalls : Calls u es v)
    (hanswers : Answers chip c.host.calls.length es) :
    ∃ rs d, exec (serve chip) c rs = some d ∧ d.host.events = c.host.events ++ es := by
  induction hcalls generalizing c with
  | nil => exact ⟨[], c, rfl, (List.append_nil _).symm⟩
  | cons hcall _ ih =>
    rename_i first rest _
    obtain ⟨hfirst, hrest⟩ := hanswers.append
    obtain ⟨r, d, hserve, hevents⟩ := exists_serve hc hu hcall hfirst
    have hd := hc.serve hserve
    have hlen : d.host.calls.length = c.host.calls.length + first.length := by
      rw [← d.host.length_events, hevents, List.length_append, c.host.length_events]
    -- the program stands where the call leads
    have hstage := hd.calls.exec
    rw [hevents] at hstage
    subst hu
    have hnext := Option.some.inj ((hc.calls.snoc hcall).exec.symm.trans hstage)
    rw [← hlen] at hrest
    obtain ⟨rs, e, hexec, hall⟩ := ih hd hnext hrest
    refine ⟨r :: rs, e, exec_cons_iff.mpr ⟨d, hserve, hexec⟩, ?_⟩
    rw [hall, hevents, List.append_assoc]

/-! ## The language of programs -/

/-- A program shows `es` against some library and ends with or without a handle. -/
def ProgramShows (es : List Event) (b : Bool) : Prop :=
  ∃ chip rs c, exec (serve chip) .start rs = some c ∧ c.host.events = es ∧ c.host.OPEN = b ∧
    c.handles = b.toNat

end

/-- **Programs, a thread of the process and the automaton show the same orders.** The method
model runs every call as a whole, the process model step by step; the sequences of events are the
same. -/
theorem client_trace_tfae (es : List Event) (b : Bool) :
    [ProgramShows es b, ∃ s, Shows Sequential es s ∧ AtRest s ∧ s.OPEN = b,
      exec Stage.step .idle es = some (.resting b)].TFAE := by
  have hrest : (Stage.resting b).atRest = true := by cases b <;> rfl
  tfae_have 1 → 3 := by
    intro h
    obtain ⟨chip, rs, c, hexec, rfl, rfl, _⟩ := h
    exact (Client.Kept.of_exec hexec).calls.exec
  tfae_have 3 → 1 := by
    intro h
    obtain ⟨chip, hanswers⟩ := exists_answers es
    obtain ⟨rs, c, hexec, hevents⟩ :=
      exists_exec_of_calls (c := Client.start) .start rfl ((calls_iff hrest rfl).mpr h) hanswers
    have hc := Client.Kept.of_exec hexec
    have hstage := hc.calls.exec
    rw [hevents] at hstage
    have hopen : c.host.OPEN = b := by
      have heq := Option.some.inj (hstage.symm.trans h)
      cases hset : c.host.OPEN <;> cases b <;> rw [hset] at heq <;> first | rfl | cases heq
    exact ⟨chip, rs, c, hexec, hevents, hopen, hopen ▸ hc.handles⟩
  tfae_have 3 → 2 := exists_shows
  tfae_have 2 → 3 := by
    intro h
    obtain ⟨s, hs, hatRest, rfl⟩ := h
    exact exec_of_shows (Shows.noStaleRelease hs) hatRest
  tfae_finish

end Trustm
