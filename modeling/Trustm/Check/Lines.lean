import Trustm.Check.Requests
import Trustm.Check.Verdict

/-!
# The lines of a run

What the output of `trustm-check` says about the run, on all arguments and all answers: which
checks have a line, which of them are skipped, and what the counters and the exit code count.

* `Linked`: the two variables of `main` are set exactly by the checks that passed, as long as the
  run has not come to the signature checks.
* `Decided`: from there on, these two are skipped exactly when a check that they need failed.
* `main_lines`: the lines of every run with their counters and the exit code.
-/

namespace Trustm

open Outcome Effect

/-! ## Passed checks -/

def certificateName : String := "read factory certificate (0xE0E0)"

def signName : String := "ECDSA sign with factory key 0xE0F0"

def Passed (name : String) (lines : List Line) : Prop := ∃ info, Line.ok name info ∈ lines

/-- Both variables were set, so the signature is verified. -/
def Verified (lines : List Line) : Prop := Passed certificateName lines ∧ Passed signName lines

section Passed

variable {name other info : String} {lines : List Line} {e : Error}

theorem passed_ok_iff :
    Passed name (lines ++ [.ok other info]) ↔ Passed name lines ∨ other = name := by
  constructor
  · intro h
    obtain ⟨text, htext⟩ := h
    rcases List.mem_append.mp htext with hold | hnew
    · exact Or.inl ⟨text, hold⟩
    · exact Or.inr (Line.ok.inj (List.mem_singleton.mp hnew)).1.symm
  · intro h
    rcases h with ⟨text, htext⟩ | rfl
    · exact ⟨text, List.mem_append_left _ htext⟩
    · exact ⟨info, List.mem_append_right _ (List.mem_singleton.mpr rfl)⟩

theorem passed_snoc_iff {l : Line} (h : ∀ info, l ≠ .ok name info) :
    Passed name (lines ++ [l]) ↔ Passed name lines := by
  constructor
  · intro hpassed
    obtain ⟨text, htext⟩ := hpassed
    rcases List.mem_append.mp htext with hold | hnew
    · exact ⟨text, hold⟩
    · exact absurd (List.mem_singleton.mp hnew).symm (h text)
  · intro hpassed
    obtain ⟨text, htext⟩ := hpassed
    exact ⟨text, List.mem_append_left _ htext⟩

theorem skip_mem_snoc_iff {l : Line} (h : ∀ name, l ≠ .skip name) :
    .skip name ∈ lines ++ [l] ↔ .skip name ∈ lines := by
  rw [List.mem_append, List.mem_singleton, or_iff_left]
  exact fun heq => h name heq.symm

end Passed

/-! ## Up to the signature -/

structure Linked (m : CheckState) : Prop where
  key : m.factoryPub.isSome ↔ Passed certificateName m.lines
  signature : m.signature.isSome ↔ Passed signName m.lines
  skips : ∀ name, .skip name ∉ m.lines

/-- A run that has come to `rest` skips what it has to. -/
def Decided (lines : List Line) : Prop :=
  ∀ name, .skip name ∈ lines ↔ name ∈ verifyNames ∧ ¬ Verified lines

def Decides (rest : Script) : Prop :=
  ∀ m, Linked m → rest.Ensures m fun _ t => Decided t.lines

section Linked

variable {chip : Chip} {m : CheckState} {name : String} {f : Effect CheckState Error String}
  {rest : Script}

theorem Linked.opened (host : Host) (info : String) :
    Linked (Report.ok "open application" info { CheckState.start with host := host }).2 where
  key := by
    change none.isSome = true ↔ Passed certificateName ([] ++ [.ok "open application" info])
    rw [passed_ok_iff]
    simp [Passed, certificateName]
  signature := by
    change none.isSome = true ↔ Passed signName ([] ++ [.ok "open application" info])
    rw [passed_ok_iff]
    simp [Passed, signName]
  skips := by
    intro name h
    cases List.mem_singleton.mp h

/-- A check sets a variable exactly if it bears the name of the check that does. -/
theorem Decides.check {α : Type} {cs : List LibCommand} {C : Nat → α → Prop}
    {key sig : α → Option (List UInt8) → Option (List UInt8)} (hf : Probe chip f cs C key sig)
    (hkey : ∀ a k, (key a k).isSome ↔ k.isSome ∨ name = certificateName)
    (hsig : ∀ a s, (sig a s).isSome ↔ s.isSome ∨ name = signName) (hrest : Decides rest) :
    Decides (Report.check name f >>= fun _ => rest) := by
  intro m hm
  rcases hf m with ⟨a, info, _, hok⟩ | ⟨_, e, host, herr⟩
  · apply Ensures.of_ok (check_of_ok hok)
    apply hrest
    refine ⟨?_, ?_, ?_⟩
    · exact (hkey a _).trans ((or_congr_left hm.key).trans passed_ok_iff.symm)
    · exact (hsig a _).trans ((or_congr_left hm.signature).trans passed_ok_iff.symm)
    · intro other h
      exact hm.skips other ((skip_mem_snoc_iff fun _ => by simp).mp h)
  · apply Ensures.of_ok (check_of_err herr)
    apply hrest
    refine ⟨?_, ?_, ?_⟩
    · exact hm.key.trans (passed_snoc_iff fun _ => by simp).symm
    · exact hm.signature.trans (passed_snoc_iff fun _ => by simp).symm
    · intro other h
      exact hm.skips other ((skip_mem_snoc_iff fun _ => by simp).mp h)

/-- A check that sets no variable, under another name. -/
theorem Decides.plain {cs : List LibCommand} {C : Nat → Prop} (hf : Plain chip f cs C)
    (hkey : name ≠ certificateName) (hsig : name ≠ signName) (hrest : Decides rest) :
    Decides (Report.check name f >>= fun _ => rest) :=
  Decides.check hf (fun _ _ => (or_iff_left hkey).symm) (fun _ _ => (or_iff_left hsig).symm) hrest

theorem Decides.forM {α : Type} {name : α → String} {f : α → Effect CheckState Error String}
    {c : α → LibCommand} {C : Nat → Prop} {xs : List α} (hf : ∀ x, Plain chip (f x) [c x] C)
    (hnames : ∀ x ∈ xs, name x ≠ certificateName ∧ name x ≠ signName) (hrest : Decides rest) :
    Decides (xs.forM (fun x => Report.check (name x) (f x)) >>= fun _ => rest) := by
  induction xs with
  | nil => exact hrest
  | cons x xs ih =>
    obtain ⟨⟨hkey, hsig⟩, hnames⟩ := List.forall_mem_cons.mp hnames
    rw [Effect.forM_cons_bind]
    exact Decides.plain (hf x) hkey hsig (ih hnames)

end Linked

/-! ## From the signature on -/

section Decided

variable {chip : Chip} {lines : List Line} {name : String}

/-- A line of another check that ran. -/
theorem Decided.snoc (h : Decided lines) {l : Line} (hname : l.name ≠ certificateName)
    (hsign : l.name ≠ signName) (hran : ∀ name, l ≠ .skip name) : Decided (lines ++ [l]) := by
  have hverified : Verified (lines ++ [l]) ↔ Verified lines := by
    apply and_congr
    · apply passed_snoc_iff
      intro info heq
      exact hname (heq ▸ rfl)
    · apply passed_snoc_iff
      intro info heq
      exact hsign (heq ▸ rfl)
  intro name
  rw [skip_mem_snoc_iff hran, hverified]
  exact h name

theorem Tame.snoc {f : Effect CheckState Error String} (hf : Tame f) (name : String)
    (m : CheckState) :
    ∃ n l, Report.check name f m = (.ok (), n) ∧ n.lines = m.lines ++ [l] ∧ l.name = name ∧
      ∀ other, l ≠ .skip other := by
  obtain ⟨r, t, hr, _, hlines⟩ := hf m
  cases r with
  | ok info =>
    exact ⟨_, .ok name info, check_of_ok hr, hlines ▸ rfl, rfl, fun _ heq => by cases heq⟩
  | error e =>
    exact ⟨_, .fail name e, check_of_err hr, hlines ▸ rfl, rfl, fun _ heq => by cases heq⟩

theorem finish_decides {m : CheckState} (h : Decided m.lines) :
    Report.finish.Ensures m fun _ t => Decided t.lines := by
  rw [Ensures, finish_apply]
  exact h

theorem closeChecks_decides {m : CheckState} (h : Decided m.lines) :
    (closeChecks chip).Ensures m fun _ t => Decided t.lines := by
  unfold closeChecks
  rcases chip.close_cases m.host with ⟨_, hclose⟩ | ⟨_, e, hclose⟩
  · apply Ensures.of_ok (attempt_of_ok (device_of_ok hclose))
    apply Ensures.of_ok (modify_apply _ _)
    exact finish_decides (h.snoc (l := .ok "close application" "") (by decide) (by decide)
      fun _ heq => by cases heq)
  · apply Ensures.of_ok (attempt_of_err (device_of_err hclose))
    apply Ensures.of_ok (modify_apply _ _)
    exact finish_decides (h.snoc (l := .fail "close application" e)
      (by change "close application" ≠ certificateName; decide)
      (by change "close application" ≠ signName; decide) fun _ heq => by cases heq)

/-- Without a key or a signature, both checks are skipped. -/
theorem Linked.skipped {m : CheckState} (hm : Linked m) (h : ¬ Verified m.lines) :
    (Report.skip "ECDSA verify on chip against certificate key" >>= fun _ =>
      Report.skip "ECDSA verify rejects a tampered digest" >>= fun _ =>
        closeChecks chip).Ensures m fun _ t => Decided t.lines := by
  apply Ensures.of_ok (modify_apply _ m)
  apply Ensures.of_ok (modify_apply _ _)
  apply closeChecks_decides
  intro name
  have hverified (first second : String) :
      Verified (m.lines ++ [.skip first] ++ [.skip second]) ↔ Verified m.lines := by
    apply and_congr
    · rw [passed_snoc_iff fun _ => by simp, passed_snoc_iff fun _ => by simp]
    · rw [passed_snoc_iff fun _ => by simp, passed_snoc_iff fun _ => by simp]
  change .skip name ∈ m.lines ++ [.skip _] ++ [.skip _] ↔
    _ ∧ ¬ Verified (m.lines ++ [.skip _] ++ [.skip _])
  rw [hverified, and_iff_left h, List.mem_append, List.mem_append, verifyNames, List.mem_pair,
    List.mem_singleton, List.mem_singleton, Line.skip.injEq, Line.skip.injEq,
    or_iff_right (hm.skips name)]

theorem verifyChecks_decides : Decides (verifyChecks chip >>= fun _ => closeChecks chip) := by
  intro m hm
  unfold verifyChecks
  rw [Effect.bind_assoc]
  apply Ensures.of_ok (get_apply m)
  cases hsig : m.signature with
  | none =>
    apply hm.skipped
    intro h
    have hset := hm.signature.mpr h.2
    rw [hsig] at hset
    cases hset
  | some sig =>
    cases hkey : m.factoryPub with
    | none =>
      apply hm.skipped
      intro h
      have hset := hm.key.mpr h.1
      rw [hkey] at hset
      cases hset
    | some point =>
      have hverified : Verified m.lines :=
        ⟨hm.key.mp (by rw [hkey]; rfl), hm.signature.mp (by rw [hsig]; rfl)⟩
      have hdecided : Decided m.lines :=
        fun name => iff_of_false (hm.skips name) fun h => h.2 hverified
      dsimp only
      rw [Effect.bind_assoc]
      have hverify : Tame (verifyCheck chip (hostKey point) sig) := verifyCheck_tame _ _
      have htampered : Tame (tamperedCheck chip (hostKey point) sig) := tamperedCheck_tame _ _
      obtain ⟨n, l, hn, hlines, hname, hran⟩ :=
        hverify.snoc "ECDSA verify on chip against certificate key" m
      obtain ⟨u, k, hu, hlines', hname', hran'⟩ :=
        htampered.snoc "ECDSA verify rejects a tampered digest" n
      apply Ensures.of_ok hn
      apply Ensures.of_ok hu
      apply closeChecks_decides
      have hfirst := hdecided.snoc (l := l) (by rw [hname]; decide) (by rw [hname]; decide) hran
      rw [← hlines] at hfirst
      have hsecond := hfirst.snoc (l := k) (by rw [hname']; decide) (by rw [hname']; decide) hran'
      rwa [← hlines'] at hsecond

theorem checks_decide : Decides (checks chip) := by
  unfold checks
  refine Decides.plain (readCheck_uid 0xE0C2) (by decide) (by decide) ?_
  refine Decides.plain (readCheck_lifecycle 0xE0C0) (by decide) (by decide) ?_
  refine Decides.plain (readCheck_hex 0xE0C1) (by decide) (by decide) ?_
  refine Decides.plain (readCheck_hex 0xE0C5) (by decide) (by decide) ?_
  refine Decides.plain (readCheck_commBuffer 0xE0C6) (by decide) (by decide) ?_
  refine Decides.plain (readCheck_hex 0xE120) (by decide) (by decide) ?_
  refine Decides.forM (fun o => metadataCheck_plain o.1) (by decide) ?_
  refine Decides.check certificateCheck_probe (fun _ k => ?_) (fun _ s => ?_) ?_
  · exact iff_of_true rfl (Or.inr rfl)
  · exact (or_iff_left (by decide)).symm
  refine Decides.plain randomCheck_plain (by decide) (by decide) ?_
  refine Decides.plain hashCheck_plain (by decide) (by decide) ?_
  refine Decides.check signCheck_probe (fun _ k => ?_) (fun _ s => ?_) verifyChecks_decides
  · exact (or_iff_left (by decide)).symm
  · exact iff_of_true rfl (Or.inr rfl)

end Decided

/-! ## Runs -/

/-- The lines of a run on a bus. -/
inductive BusLines (chip : Chip) (bus : List UInt8) (lines : List Line) : Prop
  | unopened (h : ¬ Opens chip bus) (e : Error) (hline : lines = [.fail "open application" e])
  | complete (h : Opens chip bus) (hnames : lines.map Line.name = checkNames)
      (hskips : Decided lines)

theorem mainBus_lines (chip : Chip) (bus : List UInt8) :
    (mainBus chip bus).Ensures .start fun r t => Tallied t ∧ BusLines chip bus t.lines ∧
      r = if t.report.failed > 0 then .err 1 else .ok () := by
  rcases chip.open_cases bus DEFAULT_ADDR with ⟨hopens, host, hopen, hlen⟩ |
    ⟨hopens, e, host, hopen⟩
  · apply Ensures.of_ok (attempt_of_ok (device_of_ok hopen))
    apply Ensures.of_ok (modify_apply _ _)
    have hreports : Reports "open application" .start
        (Report.ok "open application" "" { CheckState.start with host := host }).2 :=
      reports_ok Tallied.start (by rfl) (by rfl) ""
    have hcontinues : Continues (checks chip) laterNames host.calls none none _ _ :=
      checks_continue hlen
    have hclean := hcontinues.clean _ hreports.tallied rfl rfl rfl rfl
    have hdecides : Decides (checks chip) := checks_decide
    have hdecided := hdecides _ (Linked.opened host "")
    have hfinishes := hreports.finishes hclean.1
    exact ⟨hfinishes.tallied, .complete hopens hfinishes.names hdecided, hfinishes.exit⟩
  · apply Ensures.of_ok (attempt_of_err (device_of_err hopen))
    apply Ensures.of_ok (modify_apply _ _)
    have hreports : Reports "open application" .start
        (Report.fail "open application" e { CheckState.start with host := host }).2 :=
      reports_fail Tallied.start (by rfl) (by rfl) e
    refine (finish_finishes hreports.tallied).mono fun r t hfinish => ?_
    obtain ⟨hfinishes, rfl⟩ := hfinish
    exact ⟨hfinishes.tallied, .unopened hopens e rfl, hfinishes.exit⟩

/-- **What the output says is what happened**, on all arguments and all answers. -/
theorem main_lines (chip : Chip) (args : List String) :
    NoBus args ∧ main chip args .start = (if args.length = 1 then .ok () else .err 2, .start) ∨
      ∃ b, ¬ NoBus args ∧ args = [b] ∧ (main chip args).Ensures .start fun r t =>
        BusLines chip (asBytes (busPath b)) t.lines ∧ SkipsAfterFail t.lines ∧
        t.report = ⟨t.lines.countP Line.isFail, t.lines.countP Line.isOk⟩ ∧
        exitCode r = if t.lines.any Line.isFail then 1 else 0 := by
  rcases main_cases chip args with hno | ⟨b, hbus, hargs, hmain⟩
  · exact Or.inl hno
  · refine Or.inr ⟨b, hbus, hargs, ?_⟩
    rw [hmain]
    refine (mainBus_lines chip (asBytes (busPath b))).mono fun r t h => ?_
    obtain ⟨htallied, hlines, hexit⟩ := h
    refine ⟨hlines, htallied.skips, ?_, ?_⟩
    · rw [← htallied.failed, ← htallied.passed]
    · have hiff : t.report.failed > 0 ↔ t.lines.any Line.isFail = true := by
        rw [htallied.failed, List.any_eq_true]
        exact List.countP_pos_iff
      rw [hexit]
      by_cases hfailed : t.report.failed > 0
      · rw [if_pos hfailed, if_pos (hiff.mp hfailed)]
        rfl
      · rw [if_neg hfailed, if_neg fun h => hfailed (hiff.mpr h)]
        rfl

end Trustm
