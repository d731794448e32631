import Trustm.Check.Answers
import Trustm.Methods.Exact

/-!
# The report of `trustm-check`

The counters against the lines of a run, and the runs that have a failure.

* `Tallied`: the counters count the lines, and nothing is skipped before a failure.
* `Finishes`: the end of a part of `main` that reports on some names. `Dirty` says it of the
  runs that already have a failure, with a rule for each kind of step.
-/

namespace Trustm

open Outcome Effect

/-! ## Lines -/

def Line.name : Line → String
  | .ok name _ | .fail name _ | .skip name => name

def Line.isOk : Line → Bool
  | .ok _ _ => true
  | _ => false

def Line.isFail : Line → Bool
  | .fail _ _ => true
  | _ => false

/-- In front of a skipped check stands a failed one. -/
def SkipsAfterFail (lines : List Line) : Prop :=
  ∀ front name back, lines = front ++ .skip name :: back → ∃ l ∈ front, l.isFail = true

theorem SkipsAfterFail.snoc {lines : List Line} {l : Line} (h : SkipsAfterFail lines)
    (hl : ∀ name, l = .skip name → ∃ f ∈ lines, f.isFail = true) :
    SkipsAfterFail (lines ++ [l]) := by
  intro front name back heq
  rcases List.eq_nil_or_concat back with rfl | ⟨back, last, rfl⟩
  · obtain ⟨rfl, hlast⟩ := List.append_inj' heq rfl
    exact hl name (List.cons.inj hlast).1
  · have hsplit : lines ++ [l] = (front ++ .skip name :: back) ++ [last] := by
      rw [heq, List.concat_eq_append, List.append_assoc]
      rfl
    exact h front name back (List.append_inj' hsplit rfl).1

structure Tallied (m : CheckState) : Prop where
  failed : m.report.failed = m.lines.countP Line.isFail
  passed : m.report.passed = m.lines.countP Line.isOk
  skips : SkipsAfterFail m.lines

namespace Tallied

variable {m : CheckState}

theorem start : Tallied CheckState.start := by
  refine ⟨rfl, rfl, ?_⟩
  intro front name back heq
  cases front <;> cases heq

/-- The report as a closure that keeps to itself leaves it. -/
theorem of_eq {t : CheckState} (h : Tallied m) (hreport : t.report = m.report)
    (hlines : t.lines = m.lines) : Tallied t :=
  ⟨by rw [hreport, hlines, h.failed], by rw [hreport, hlines, h.passed], hlines ▸ h.skips⟩

/-- One more line, counted. -/
theorem line (h : Tallied m) {t : CheckState} {l : Line} (hlines : t.lines = m.lines ++ [l])
    (hfailed : t.report.failed = m.report.failed + l.isFail.toNat)
    (hpassed : t.report.passed = m.report.passed + l.isOk.toNat)
    (hskip : ∀ name, l = .skip name → 0 < m.report.failed) : Tallied t := by
  refine ⟨?_, ?_, ?_⟩
  · rw [hfailed, hlines, List.countP_append, ← h.failed]
    cases l <;> rfl
  · rw [hpassed, hlines, List.countP_append, ← h.passed]
    cases l <;> rfl
  · rw [hlines]
    apply h.skips.snoc
    intro name heq
    have hpos := hskip name heq
    rw [h.failed] at hpos
    exact List.countP_pos_iff.mp hpos

theorem ok (h : Tallied m) (name info : String) : Tallied (Report.ok name info m).2 :=
  h.line (l := .ok name info) rfl rfl rfl fun _ heq => by cases heq

theorem fail (h : Tallied m) (name : String) (e : Error) : Tallied (Report.fail name e m).2 :=
  h.line (l := .fail name e) rfl rfl rfl fun _ heq => by cases heq

/-- A check may be skipped behind a failure. -/
theorem skip (h : Tallied m) (hfailed : 0 < m.report.failed) (name : String) :
    Tallied (Report.skip name m).2 :=
  h.line (l := .skip name) rfl rfl rfl fun _ _ => hfailed

/-- Without a failure every line is that of a passed check. -/
theorem all_ok (h : Tallied m) (hfailed : m.report.failed = 0) : ∀ l ∈ m.lines, l.isOk = true := by
  have hnone : ∀ l ∈ m.lines, ¬ l.isFail = true := by
    rw [h.failed] at hfailed
    exact List.countP_eq_zero.mp hfailed
  intro l hl
  cases l with
  | ok name info => rfl
  | fail name e => exact absurd rfl (hnone _ hl)
  | skip name =>
    obtain ⟨front, back, heq⟩ := List.append_of_mem hl
    obtain ⟨f, hf, hfail⟩ := h.skips front name back heq
    exact absurd hfail (hnone f (heq ▸ List.mem_append_left _ hf))

theorem failed_eq_zero (h : Tallied m) (hok : ∀ l ∈ m.lines, l.isOk = true) :
    m.report.failed = 0 := by
  rw [h.failed, List.countP_eq_zero]
  intro l hl
  have := hok l hl
  cases l <;> simp_all [Line.isOk, Line.isFail]

end Tallied

/-! ## Ends -/

/-- The end of a part of `main` that begins in `m` and reports on `names`. -/
structure Finishes (names : List String) (m : CheckState) (r : Outcome Nat Unit)
    (t : CheckState) : Prop where
  tallied : Tallied t
  names : t.lines.map Line.name = m.lines.map Line.name ++ names
  failed : m.report.failed ≤ t.report.failed
  exit : r = if t.report.failed > 0 then .err 1 else .ok ()

/-! ## One check -/

/-- One more line with the name `name`. -/
structure Reports (name : String) (m n : CheckState) : Prop where
  tallied : Tallied n
  names : n.lines.map Line.name = m.lines.map Line.name ++ [name]
  failed : m.report.failed ≤ n.report.failed

/-- One more name in front of those of the rest. -/
theorem Reports.finishes {name : String} {names : List String} {m n t : CheckState}
    {r : Outcome Nat Unit} (h : Reports name m n) (hrest : Finishes names n r t) :
    Finishes (name :: names) m r t where
  tallied := hrest.tallied
  names := by rw [hrest.names, h.names, List.append_assoc, List.singleton_append]
  failed := h.failed.trans hrest.failed
  exit := hrest.exit

section Check

variable {name : String} {f : Effect CheckState Error String} {m t : CheckState}

theorem check_of_ok {info : String} (h : f m = (.ok info, t)) :
    Report.check name f m = (.ok (), (Report.ok name info t).2) :=
  bind_of_ok (attempt_of_ok h)

theorem check_of_err {e : Error} (h : f m = (.err e, t)) :
    Report.check name f m = (.ok (), (Report.fail name e t).2) :=
  bind_of_ok (attempt_of_err h)

variable (hm : Tallied m) (hreport : t.report = m.report) (hlines : t.lines = m.lines)

include hm hreport hlines

theorem reports_ok (info : String) : Reports name m (Report.ok name info t).2 where
  tallied := (hm.of_eq hreport hlines).ok name info
  names := by
    change (t.lines ++ [Line.ok name info]).map Line.name = _
    rw [List.map_append, hlines]
    rfl
  failed := hreport ▸ le_rfl

theorem reports_fail (e : Error) : Reports name m (Report.fail name e t).2 where
  tallied := (hm.of_eq hreport hlines).fail name e
  names := by
    change (t.lines ++ [Line.fail name e]).map Line.name = _
    rw [List.map_append, hlines]
    rfl
  failed := hreport ▸ Nat.le_succ _

end Check

/-! ## Runs with a failure -/

/-- A closure that ends in a text or an error and leaves the report alone. -/
def Tame (f : Effect CheckState Error String) : Prop :=
  ∀ m, ∃ r t, f m = (ofExcept r, t) ∧ t.report = m.report ∧ t.lines = m.lines

/-- A run that has a failure goes on to its end, through all `names`. -/
def Dirty (rest : Script) (names : List String) : Prop :=
  ∀ m, Tallied m → 0 < m.report.failed → rest.Ensures m (Finishes names m)

section Dirty

variable {chip : Chip} {name : String} {names : List String}
  {f : Effect CheckState Error String} {rest : Script}

theorem Tame.reports (hf : Tame f) (name : String) {m : CheckState} (hm : Tallied m) :
    ∃ n, Report.check name f m = (.ok (), n) ∧ Reports name m n := by
  obtain ⟨r, t, hr, hreport, hlines⟩ := hf m
  cases r with
  | ok info => exact ⟨_, check_of_ok hr, reports_ok hm hreport hlines info⟩
  | error e => exact ⟨_, check_of_err hr, reports_fail hm hreport hlines e⟩

theorem Dirty.check (hf : Tame f) (h : Dirty rest names) :
    Dirty (Report.check name f >>= fun _ => rest) (name :: names) := by
  intro m hm hfailed
  obtain ⟨n, hn, hreports⟩ := hf.reports name hm
  apply Ensures.of_ok hn
  exact (h n hreports.tallied (hfailed.trans_le hreports.failed)).mono fun _ _ =>
    hreports.finishes

theorem Probe.tame {α : Type} {cs : List LibCommand} {C : Nat → α → Prop}
    {key sig : α → Option (List UInt8) → Option (List UInt8)} (h : Probe chip f cs C key sig) :
    Tame f := by
  intro m
  rcases h m with ⟨a, info, _, hok⟩ | ⟨_, e, host, herr⟩
  · exact ⟨.ok info, _, hok, rfl, rfl⟩
  · exact ⟨.error e, _, herr, rfl, rfl⟩

/-- No method panics. -/
theorem device_settles {α : Type} {x : Effect Host Error α} {results : α → List (List UInt8)}
    (hx : ∀ s, x.Ensures s (Transferred s results)) (m : CheckState) :
    ∃ r t, device x m = (ofExcept r, { m with host := t }) := by
  have htransferred := hx m.host
  cases hresult : x m.host with
  | mk r t =>
    rw [Ensures, hresult] at htransferred
    cases r with
    | ok a => exact ⟨.ok a, t, device_of_ok hresult⟩
    | err e => exact ⟨.error e, t, device_of_err hresult⟩
    | panic =>
      rcases htransferred with ⟨⟨what, hwhat⟩, _⟩ | ⟨c, reply, _, _, hdelivered⟩
      · cases hwhat
      · exact absurd rfl hdelivered.settled

theorem verifyCheck_tame (derKey sig : List UInt8) : Tame (verifyCheck chip derKey sig) := by
  intro m
  obtain ⟨r, t, hr⟩ :=
    device_settles (fun s => chip.ecdsaVerify_transferred .nistP256 derKey digest sig) m
  cases r with
  | ok u => exact ⟨.ok "valid", _, bind_of_ok hr, rfl, rfl⟩
  | error e => exact ⟨.error e, _, bind_of_err hr, rfl, rfl⟩

theorem tamperedCheck_tame (derKey sig : List UInt8) : Tame (tamperedCheck chip derKey sig) := by
  intro m
  obtain ⟨r, t, hr⟩ :=
    device_settles (fun s => chip.ecdsaVerify_transferred .nistP256 derKey tampered sig) m
  cases r with
  | ok u => exact ⟨.error _, _, bind_of_ok (attempt_of_ok hr), rfl, rfl⟩
  | error e => exact ⟨.ok "rejected", _, bind_of_ok (attempt_of_err hr), rfl, rfl⟩

/-- The skipped checks are named all the same. -/
theorem dirty_skips (first second : String) (h : Dirty rest names) :
    Dirty (Report.skip first >>= fun _ => Report.skip second >>= fun _ => rest)
      (first :: second :: names) := by
  intro m hm hfailed
  have hfirst : Reports first m (Report.skip first m).2 :=
    ⟨hm.skip hfailed first, List.map_append, le_rfl⟩
  have hsecond : Reports second (Report.skip first m).2
      (Report.skip second (Report.skip first m).2).2 :=
    ⟨hfirst.tallied.skip hfailed second, List.map_append, le_rfl⟩
  apply Ensures.of_ok (modify_apply _ m)
  apply Ensures.of_ok (modify_apply _ _)
  exact (h _ hsecond.tallied hfailed).mono fun _ _ hrest =>
    hfirst.finishes (hsecond.finishes hrest)

theorem dirty_verify (h : Dirty rest names) :
    Dirty (verifyChecks chip >>= fun _ => rest)
      ("ECDSA verify on chip against certificate key" ::
        "ECDSA verify rejects a tampered digest" :: names) := by
  intro m hm hfailed
  unfold verifyChecks
  rw [Effect.bind_assoc]
  apply Ensures.of_ok (get_apply m)
  cases m.signature with
  | none => exact dirty_skips _ _ h m hm hfailed
  | some sig =>
    cases m.factoryPub with
    | none => exact dirty_skips _ _ h m hm hfailed
    | some point =>
      dsimp only
      rw [Effect.bind_assoc]
      exact ((h.check (tamperedCheck_tame _ _)).check (verifyCheck_tame _ _)) m hm hfailed

/-- The last line, in front of the verdict. -/
theorem closeChecks_eq (chip : Chip) {m : CheckState} (hm : Tallied m) :
    ∃ n, closeChecks chip m = Report.finish n ∧ Reports "close application" m n ∧
      n.host = chip.dropped (m.host.ran (.closeApplication 0) (chip.next m.host)) ∧
      ((chip.next m.host).Succeeds ∧ n.report.failed = m.report.failed ∨
        ¬ (chip.next m.host).Succeeds ∧ n.report.failed = m.report.failed + 1) := by
  unfold closeChecks
  have hcases := chip.close_cases m.host
  generalize chip.dropped (m.host.ran (.closeApplication 0) (chip.next m.host)) = closed at hcases ⊢
  rcases hcases with ⟨hok, hclose⟩ | ⟨herr, e, hclose⟩
  · rw [bind_of_ok (attempt_of_ok (device_of_ok hclose))]
    refine ⟨_, bind_of_ok (modify_apply _ _), ?_, rfl, Or.inl ⟨hok, rfl⟩⟩
    exact reports_ok hm (by rfl) (by rfl) ""
  · rw [bind_of_ok (attempt_of_err (device_of_err hclose))]
    refine ⟨_, bind_of_ok (modify_apply _ _), ?_, rfl, Or.inr ⟨herr, rfl⟩⟩
    exact reports_fail hm (by rfl) (by rfl) e

/-- The exit code is that of the counter. -/
theorem finish_apply (m : CheckState) :
    Report.finish m = (if m.report.failed > 0 then .err 1 else .ok (), m) := by
  unfold Report.finish
  rw [bind_of_ok (get_apply m)]
  split <;> rfl

theorem finish_finishes {m : CheckState} (h : Tallied m) :
    Report.finish.Ensures m fun r t => Finishes [] m r t ∧ t = m := by
  rw [Ensures, finish_apply]
  exact ⟨⟨h, (List.append_nil _).symm, le_rfl, rfl⟩, rfl⟩

theorem dirty_close : Dirty (closeChecks chip) ["close application"] := by
  intro m hm _
  obtain ⟨n, hn, hreports, _⟩ := closeChecks_eq chip hm
  rw [Ensures, hn]
  exact (finish_finishes hreports.tallied).mono fun _ _ hfinish => hreports.finishes hfinish.1

end Dirty

end Trustm
