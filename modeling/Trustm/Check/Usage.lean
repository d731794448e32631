import Trustm.Check.Provenance

/-!
# How `trustm-check` uses the library

`trustm-check` is a client program: every run is a word of requests, and the calls its host makes
are those that `serve` makes for them.

* `BusRequests`: the words of a run on a bus. Behind the requests of `checkLanguage` come both
  verifications, with the key and the signature that the chip has handed out by then, or none.
* `main_requests`: the requests of every run, on all arguments.
* `main_read_only`: no run writes to the chip, and every run ends with nothing open.
-/

namespace Trustm

open Run Outcome Effect

/-! ## Words of a run -/

/-- Behind the calls of `log`, both digests are verified with a key and a signature from it, or
neither of them. -/
def verifyLanguage (log : Log) : Language Request :=
  {ks : List Request | ks = [] ∨ ∃ point sig, KeyRead log point ∧ SignatureMade log sig ∧
    ks = (verifyCalls (hostKey point) sig).map .call}

/-- The requests of a run on a bus. -/
inductive BusRequests (chip : Chip) (bus : List UInt8) : List Request → Prop
  | unopened (h : ¬ Opens chip bus) : BusRequests chip bus [.open bus DEFAULT_ADDR]
  | complete {ks vs : List Request} (h : Opens chip bus) (hks : ks ∈ checkLanguage)
      (hvs : vs ∈ verifyLanguage
        ((Request.open bus DEFAULT_ADDR :: ks).foldl chip.behind .start).calls) :
      BusRequests chip bus (.open bus DEFAULT_ADDR :: (ks ++ vs ++ [.close]))

section Words

variable {chip : Chip}

/-- The verifications are for what the variables hold, and so for what the log holds. -/
theorem verifyChecks_requests {m : CheckState} (hm : Held m) :
    ∃ vs ∈ verifyLanguage m.host.calls,
      (verifyChecks chip m).2.host = vs.foldl chip.behind m.host := by
  unfold verifyChecks
  rw [bind_of_ok (get_apply m)]
  cases hsig : m.signature with
  | none => exact ⟨[], Or.inl rfl, rfl⟩
  | some sig =>
    cases hkey : m.factoryPub with
    | none => exact ⟨[], Or.inl rfl, rfl⟩
    | some point =>
      have hboth : Requests chip
          (Report.check "ECDSA verify on chip against certificate key"
            (verifyCheck chip (hostKey point) sig) >>= fun _ =>
          Report.check "ECDSA verify rejects a tampered digest"
            (tamperedCheck chip (hostKey point) sig)) _ :=
        Performs.seq (Requests.check (verifyCheck_requests _ _) _)
          ((verifyCheck_tame _ _).settles _) fun _ =>
            Requests.check (tamperedCheck_requests _ _) _
      obtain ⟨vs, hvs, hhost⟩ := hboth m
      obtain ⟨as, rfl, bs, rfl, rfl⟩ := Language.mem_mul.mp hvs
      refine ⟨_, Or.inr ⟨point, sig, hm.key point hkey, hm.signature sig hsig, rfl⟩, ?_⟩
      exact hhost

/-- What is left to do behind the other checks. -/
theorem verifyAndClose_requests {m : CheckState} (hm : Held m) :
    ∃ vs ∈ verifyLanguage m.host.calls,
      ((verifyChecks chip >>= fun _ => closeChecks chip) m).2.host =
        (vs ++ [Request.close]).foldl chip.behind m.host := by
  obtain ⟨vs, hvs, hhost⟩ := @verifyChecks_requests chip m hm
  obtain ⟨t, ht, _⟩ := @verifyChecks_keepsHeld chip m hm
  have hclose : Requests chip (closeChecks chip) {[.close]} := closeChecks_requests
  obtain ⟨ks, rfl, hclosed⟩ := hclose t
  refine ⟨vs, hvs, ?_⟩
  rw [ht] at hhost
  rw [bind_of_ok ht, hclosed, hhost, List.foldl_append]

end Words

theorem mainBus_requests (chip : Chip) (bus : List UInt8) :
    ∃ rs, BusRequests chip bus rs ∧
      (mainBus chip bus .start).2.host = rs.foldl chip.behind .start := by
  rcases mainBus_prepares chip bus with ⟨hopens, ks, hks, n, hheld, hhost, hrun⟩ |
    ⟨hopens, n, hhost, hrun⟩
  · obtain ⟨vs, hvs, hend⟩ := @verifyAndClose_requests chip n hheld
    refine ⟨_, .complete hopens hks (hhost ▸ hvs), ?_⟩
    rw [hrun, hend, hhost, ← List.foldl_append, List.cons_append, List.append_assoc]
  · refine ⟨_, .unopened hopens, ?_⟩
    rw [hrun, finish_apply]
    exact hhost

/-! ## Calls that write nothing -/

/-- A call of a method that writes nothing. -/
def Request.Reading (r : Request) : Prop := ∃ m : Method, r = .call m ∧ m.writes = false

theorem calls_of_reading {ks : List Request} (h : ∀ k ∈ ks, k.Reading) :
    ∃ ms : List Method, ks = ms.map .call ∧ ∀ m ∈ ms, m.writes = false := by
  induction ks with
  | nil => exact ⟨[], rfl, fun m hm => by cases hm⟩
  | cons k ks ih =>
    obtain ⟨m, rfl, hm⟩ := h k List.mem_cons_self
    obtain ⟨ms, rfl, hms⟩ := ih fun l hl => h l (List.mem_cons_of_mem _ hl)
    exact ⟨m :: ms, rfl, List.forall_mem_cons.mpr ⟨hm, hms⟩⟩

theorem verifyLanguage_le_wordsOf (log : Log) :
    verifyLanguage log ≤ Language.wordsOf Request.Reading := by
  intro ks hks k hk
  rcases hks with rfl | ⟨point, sig, _, _, rfl⟩
  · cases hk
  · obtain ⟨m, hm, rfl⟩ := List.mem_map.mp hk
    refine ⟨m, rfl, ?_⟩
    rcases List.mem_pair.mp hm with rfl | rfl <;> rfl

theorem checkLanguage_le_wordsOf : checkLanguage ≤ Language.wordsOf Request.Reading := by
  have hcall (m : Method) (hm : m.writes = false) :
      ({[.call m]} : Language Request) ≤ Language.wordsOf Request.Reading := by
    apply Language.singleton_le_wordsOf
    intro k hk
    exact ⟨m, List.mem_singleton.mp hk, hm⟩
  have hdraw := hcall draw rfl
  refine Language.mul_le_wordsOf ?_ (hcall _ rfl)
  refine Language.mul_le_wordsOf ?_ (hcall _ rfl)
  refine Language.mul_le_wordsOf ?_
    (Language.add_le_wordsOf (Language.mul_le_wordsOf hdraw hdraw) hdraw)
  refine Language.mul_le_wordsOf ?_ (hcall _ rfl)
  refine Language.mul_le_wordsOf (Language.prod_le_wordsOf ?_) (Language.prod_le_wordsOf ?_)
  · intro L hL
    obtain ⟨oid, _, rfl⟩ := List.mem_map.mp hL
    exact hcall _ rfl
  · intro L hL
    obtain ⟨o, _, rfl⟩ := List.mem_map.mp hL
    exact hcall _ rfl

/-- Behind `open` come calls of methods that write nothing, and `close`. -/
theorem exists_calls {log : Log} {ks vs : List Request} (hks : ks ∈ checkLanguage)
    (hvs : vs ∈ verifyLanguage log) :
    ∃ ms : List Method, ks ++ vs = ms.map .call ∧ ∀ m ∈ ms, m.writes = false := by
  apply calls_of_reading
  intro k hk
  rcases List.mem_append.mp hk with hk | hk
  · exact checkLanguage_le_wordsOf hks k hk
  · exact verifyLanguage_le_wordsOf log hvs k hk

/-! ## The handle is there -/

section Serve

variable {chip : Chip} {c : Client}

/-- Calls of methods in a row keep the handle. -/
theorem exec_calls (hpos : 0 < c.handles) (ms : List Method) :
    exec (serve chip) c (ms.map .call) =
      some ⟨(ms.map Request.call).foldl chip.behind c.host, c.handles⟩ := by
  induction ms generalizing c with
  | nil => rfl
  | cons m ms ih =>
    apply exec_cons_iff.mpr
    refine ⟨⟨chip.behind c.host (.call m), c.handles⟩, serve_call_iff.mpr ⟨hpos, rfl⟩, ?_⟩
    exact @ih ⟨chip.behind c.host (.call m), c.handles⟩ hpos

/-- Calls on one handle, up to its end. -/
theorem exec_calls_close {t : Host} (ms : List Method) :
    exec (serve chip) ⟨t, 1⟩ (ms.map .call ++ [.close]) =
      some ⟨(ms.map Request.call ++ [Request.close]).foldl chip.behind t, 0⟩ := by
  apply exec_append_iff.mpr
  refine ⟨_, exec_calls Nat.one_pos ms, exec_cons_iff.mpr ⟨_, serve_close_iff.mpr ⟨?_, rfl⟩, ?_⟩⟩
  · exact Nat.one_pos
  · rw [List.foldl_append]
    rfl

end Serve

/-- A client can make these requests: the handle is there for every call. -/
theorem BusRequests.exec {chip : Chip} {bus : List UInt8} {rs : List Request}
    (h : BusRequests chip bus rs) :
    Run.exec (serve chip) .start rs = some ⟨rs.foldl chip.behind .start, 0⟩ := by
  cases h with
  | unopened hopens =>
    rcases chip.open_cases bus DEFAULT_ADDR with ⟨h, _⟩ | ⟨_, e, t, hopen⟩
    · exact absurd h hopens
    · rw [List.foldl_cons, Chip.behind, hopen]
      exact exec_cons_iff.mpr ⟨⟨t, 0⟩, serve_open_of_err hopen, rfl⟩
  | complete hopens hks hvs =>
    rcases chip.open_cases bus DEFAULT_ADDR with ⟨_, t, hopen, _⟩ | ⟨h, _⟩
    · obtain ⟨ms, hms, _⟩ := exists_calls hks hvs
      rw [hms, List.foldl_cons, Chip.behind, hopen]
      exact exec_cons_iff.mpr ⟨⟨t, 1⟩, serve_open_of_ok hopen, exec_calls_close ms⟩
    · exact absurd hopens h

/-- **Every run is a client program**, and its requests are these. -/
theorem main_requests (chip : Chip) (args : List String) :
    ∃ rs, exec (serve chip) .start rs = some ⟨(main chip args .start).2.host, 0⟩ ∧
      (NoBus args ∧ rs = [] ∨
        ∃ b, ¬ NoBus args ∧ args = [b] ∧ BusRequests chip (asBytes (busPath b)) rs) := by
  rcases main_cases chip args with ⟨hno, hstart⟩ | ⟨b, hbus, hargs, hmain⟩
  · refine ⟨[], ?_, Or.inl ⟨hno, rfl⟩⟩
    rw [hstart]
    rfl
  · obtain ⟨rs, hrs, hhost⟩ := mainBus_requests chip (asBytes (busPath b))
    refine ⟨rs, ?_, Or.inr ⟨b, hbus, hargs, hrs⟩⟩
    rw [hmain, hhost]
    exact hrs.exec

/-! ## What a run leaves behind -/

def LibCall.writes : LibCall → Bool
  | .command c => c.writes
  | _ => false

/-- No call so far writes to the chip. -/
def NoWrites (log : List (LibCall × Reply)) : Prop := ∀ p ∈ log, p.1.writes = false

theorem writes_of_housekeeping {c : LibCall} (h : c.housekeeping = true) : c.writes = false := by
  cases c with
  | command c =>
    cases c with
    | openApplication | closeApplication => rfl
    | _ => cases h
  | _ => rfl

theorem NoWrites.snoc {log : List (LibCall × Reply)} {c : LibCall} {r : Reply} (h : NoWrites log)
    (hc : c.writes = false) : NoWrites (log ++ [(c, r)]) := by
  intro p hp
  rcases List.mem_append.mp hp with hold | hnew
  · exact h p hold
  · rw [List.mem_singleton.mp hnew]
    exact hc

section Keeps

variable {chip : Chip} {α : Type}

theorem Housekeeps.noWrites {x : Effect Host Error α} (hx : Housekeeps chip x) {s : Host}
    (hs : NoWrites s.calls) : NoWrites (x s).2.calls :=
  Performs.keeps hx (fun _ _ hc h => h.snoc (writes_of_housekeeping hc)) hs

/-- The command of a method writes if the method does. -/
theorem NoWrites.perform {s : Host} (h : NoWrites s.calls) {m : Method} (hm : m.writes = false) :
    NoWrites (m.perform chip s).2.calls := by
  rcases m.perform_issues chip s with hsame | ⟨c, hc, hran, _⟩
  · rw [hsame]
    exact h
  · rw [hran]
    exact h.snoc (hc.2.2.trans hm)

theorem NoWrites.calls {s : Host} (h : NoWrites s.calls) {ms : List Method}
    (hms : ∀ m ∈ ms, m.writes = false) :
    NoWrites ((ms.map Request.call).foldl chip.behind s).calls := by
  induction ms generalizing s with
  | nil => exact h
  | cons m ms ih =>
    obtain ⟨hm, hms⟩ := List.forall_mem_cons.mp hms
    exact ih (h.perform hm) hms

end Keeps

theorem BusRequests.noWrites {chip : Chip} {bus : List UInt8} {rs : List Request}
    (h : BusRequests chip bus rs) : NoWrites (rs.foldl chip.behind .start).calls := by
  have hopened : NoWrites (chip.behind .start (.open bus DEFAULT_ADDR)).calls :=
    (housekeeps_open bus DEFAULT_ADDR).noWrites fun p hp => (List.not_mem_nil hp).elim
  cases h with
  | unopened => exact hopened
  | complete _ hks hvs =>
    obtain ⟨ms, hcalls, hms⟩ := exists_calls hks hvs
    rw [hcalls, List.foldl_cons, List.foldl_append]
    exact housekeeps_close.noWrites (hopened.calls hms)

/-- The library is left as it was found. -/
theorem main_closed (chip : Chip) (args : List String) :
    (main chip args .start).2.host.OPEN = false ∧
      exec Stage.step .idle (main chip args .start).2.host.events = some .idle := by
  rcases main_cases chip args with ⟨_, hstart⟩ | ⟨b, _, _, hmain⟩
  · rw [hstart]
    exact ⟨rfl, rfl⟩
  · obtain ⟨rs, hrs, hhost⟩ := mainBus_requests chip (asBytes (busPath b))
    have hkept := Client.Kept.of_exec hrs.exec
    rw [← hhost] at hkept
    have hclosed : (mainBus chip (asBytes (busPath b)) .start).2.host.OPEN = false := by
      have hhandles := hkept.handles
      cases hopen : (mainBus chip (asBytes (busPath b)) .start).2.host.OPEN with
      | false => rfl
      | true =>
        rw [hopen] at hhandles
        cases hhandles
    have hcalls := hkept.calls.exec
    rw [hclosed] at hcalls
    rw [hmain]
    exact ⟨hclosed, hcalls⟩

/-- **A health check changes nothing.** Whatever the chip answers, no command of the run makes a
key, writes an object or moves a counter, and the library is left as it was found: the calls are
those of whole calls of the API, and nothing is open behind the last one. -/
theorem main_read_only (chip : Chip) (args : List String) :
    NoWrites (main chip args .start).2.host.calls ∧
      (main chip args .start).2.host.OPEN = false ∧
      exec Stage.step .idle (main chip args .start).2.host.events = some .idle := by
  refine ⟨?_, main_closed chip args⟩
  rcases main_cases chip args with ⟨_, hstart⟩ | ⟨b, _, _, hmain⟩
  · rw [hstart]
    exact fun p hp => (List.not_mem_nil hp).elim
  · obtain ⟨rs, hrs, hhost⟩ := mainBus_requests chip (asBytes (busPath b))
    rw [hmain, hhost]
    exact hrs.noWrites

end Trustm
