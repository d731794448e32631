import Trustm.Check.Chain
import Trustm.Check.Report

/-!
# The verdict of `trustm-check`

The exit code against the lines of a run, and against the answers of the library.

* `Continues` is the specification of a part of `main` in a run without a failure: the answers
  under which the run stays without one, and the log of its calls.
* `checks_continue` follows `main` from its end to its beginning.
* `main_verdict`: the exit code is 0 exactly when every check ran and passed. `checkedChip` is a
  chip on which it is.
-/

namespace Trustm

open Outcome Effect

/-! ## Runs without a failure -/

/-- The log behind some commands. -/
def Chip.logged (chip : Chip) (log : List (LibCall × Reply)) (cs : List LibCommand) :
    List (LibCall × Reply) :=
  cs.foldl (fun log c => log ++ [(.command c, chip.reply log.length)]) log

theorem Chip.calls_after (chip : Chip) (s : Host) (cs : List LibCommand) :
    (chip.after s cs).calls = chip.logged s.calls cs := by
  induction cs generalizing s with
  | nil => rfl
  | cons c cs ih => exact ih (s.ran c (chip.next s))

theorem Chip.length_logged (chip : Chip) (log : List (LibCall × Reply)) (cs : List LibCommand) :
    (chip.logged log cs).length = log.length + cs.length := by
  induction cs generalizing log with
  | nil => rfl
  | cons c cs ih =>
    change (chip.logged (log ++ [(.command c, chip.reply log.length)]) cs).length = _
    rw [ih, List.length_append, List.length_cons, List.length_cons, List.length_nil]
    omega

/-- A part of `main` in both kinds of runs. A run without a failure, with the calls `log` and
these values of the two variables, stays without one to the end exactly if `P`, and then `Q`
holds there. -/
structure Continues (rest : Script) (names : List String) (log : List (LibCall × Reply))
    (factoryPub signature : Option (List UInt8)) (P : Prop) (Q : CheckState → Prop) : Prop where
  dirty : Dirty rest names
  clean : ∀ m, Tallied m → m.report.failed = 0 → m.host.calls = log →
    m.factoryPub = factoryPub → m.signature = signature → rest.Ensures m fun r t =>
      Finishes names m r t ∧ (t.report.failed = 0 ↔ P) ∧ (P → Q t)

section Continues

variable {chip : Chip} {name : String} {names : List String}
  {f : Effect CheckState Error String} {rest : Script} {log : List (LibCall × Reply)}
  {factoryPub signature : Option (List UInt8)} {P : Prop} {Q : CheckState → Prop}

theorem Continues.congr {P' : Prop} (h : Continues rest names log factoryPub signature P Q)
    (hP : P ↔ P') : Continues rest names log factoryPub signature P' Q := by
  rwa [← propext hP]

/-- A check that passes on the answers `C` for a value that the answers determine. -/
theorem Continues.check {α : Type} {cs : List LibCommand} {C : Nat → α → Prop}
    {key sig : α → Option (List UInt8) → Option (List UInt8)} {P : α → Prop}
    (hf : Probe chip f cs C key sig) (hunique : ∀ n a b, C n a → C n b → a = b)
    (hdirty : Dirty rest names)
    (h : ∀ a, C log.length a →
      Continues rest names (chip.logged log cs) (key a factoryPub) (sig a signature) (P a) Q) :
    Continues (Report.check name f >>= fun _ => rest) (name :: names) log factoryPub signature
      (∃ a, C log.length a ∧ P a) Q where
  dirty := hdirty.check hf.tame
  clean := by
    rintro m hm hfailed rfl rfl rfl
    rcases hf m with ⟨a, info, ha, hok⟩ | ⟨hnone, e, host, herr⟩
    · apply Ensures.of_ok (check_of_ok hok)
      have hreports : Reports name m (Report.ok name info { m with
          host := chip.after m.host cs
          factoryPub := key a m.factoryPub
          signature := sig a m.signature }).2 := reports_ok hm (by rfl) (by rfl) info
      have hrest := (h a ha).clean _ hreports.tallied hfailed (chip.calls_after m.host cs) rfl rfl
      refine hrest.mono ?_
      rintro r t ⟨hfinishes, hclean, hend⟩
      -- the value is the only one for these answers
      have hiff : P a ↔ ∃ b, C m.host.calls.length b ∧ P b := by
        constructor
        · exact fun hP => ⟨a, ha, hP⟩
        · rintro ⟨b, hb, hP⟩
          rwa [hunique _ a b ha hb]
      exact ⟨hreports.finishes hfinishes, hclean.trans hiff, fun hP => hend (hiff.mpr hP)⟩
    · apply Ensures.of_ok (check_of_err herr)
      have hreports : Reports name m (Report.fail name e { m with host := host }).2 :=
        reports_fail hm (by rfl) (by rfl) e
      refine (hdirty _ hreports.tallied (Nat.succ_pos _)).mono ?_
      intro r t hfinishes
      have hne : t.report.failed ≠ 0 := ((Nat.succ_pos _).trans_le hfinishes.failed).ne'
      have hfalse : ¬ ∃ a, C m.host.calls.length a ∧ P a := fun ⟨a, ha, _⟩ => hnone a ha
      exact ⟨hreports.finishes hfinishes, iff_of_false hne hfalse, fun hP => absurd hP hfalse⟩

theorem Continues.plain {cs : List LibCommand} {C : Nat → Prop} (hf : Plain chip f cs C)
    (h : Continues rest names (chip.logged log cs) factoryPub signature P Q) :
    Continues (Report.check name f >>= fun _ => rest) (name :: names) log factoryPub signature
      (C log.length ∧ P) Q := by
  apply (Continues.check hf (fun _ _ _ _ _ => rfl) h.dirty fun _ _ => h).congr
  constructor
  · rintro ⟨_, hC, hP⟩
    exact ⟨hC, hP⟩
  · rintro ⟨hC, hP⟩
    exact ⟨(), hC, hP⟩

/-- A loop of checks with one command each, all passing on the same answers. -/
theorem Continues.forM {α : Type} {name : α → String} {f : α → Effect CheckState Error String}
    {c : α → LibCommand} {C : Nat → Prop} (xs : List α) (hf : ∀ x, Plain chip (f x) [c x] C)
    (h : Continues rest names (chip.logged log (xs.map c)) factoryPub signature P Q) :
    Continues (xs.forM (fun x => Report.check (name x) (f x)) >>= fun _ => rest)
      (xs.map name ++ names) log factoryPub signature
      ((∀ i < xs.length, C (log.length + i)) ∧ P) Q := by
  induction xs generalizing log with
  | nil => exact h.congr ⟨fun hP => ⟨fun i hi => absurd hi (Nat.not_lt_zero i), hP⟩, And.right⟩
  | cons x xs ih =>
    rw [Effect.forM_cons_bind]
    apply (Continues.plain (hf x) (ih h)).congr
    have hlen : (chip.logged log [c x]).length = log.length + 1 := chip.length_logged log [c x]
    rw [hlen, ← and_assoc]
    apply and_congr_left
    intro _
    constructor
    · rintro ⟨hfirst, hothers⟩ i hi
      cases i with
      | zero => exact hfirst
      | succ i =>
        rw [Nat.add_comm i 1, ← Nat.add_assoc]
        exact hothers i (Nat.lt_of_succ_lt_succ hi)
    · intro hall
      refine ⟨hall 0 (Nat.succ_pos _), ?_⟩
      intro i hi
      rw [Nat.add_assoc, Nat.add_comm 1]
      exact hall (i + 1) (Nat.succ_lt_succ hi)

/-- With a key and a signature both verify commands are issued. -/
theorem continues_verify {point sig : List UInt8} (hkey : (hostKey point).length < 65536)
    (hsig : sig.length < 65536)
    (h : Continues rest names
      (chip.logged log [ecdsaVerifyCommand (hostKey point) digest sig,
        ecdsaVerifyCommand (hostKey point) tampered sig]) (some point) (some sig) P Q) :
    Continues (verifyChecks chip >>= fun _ => rest)
      ("ECDSA verify on chip against certificate key" ::
        "ECDSA verify rejects a tampered digest" :: names) log (some point) (some sig)
      ((chip.reply log.length).Succeeds ∧
        (∃ e, (chip.reply (log.length + 1)).completion.result = .error e) ∧ P) Q where
  dirty := dirty_verify h.dirty
  clean := by
    have hboth : Continues
        (Report.check "ECDSA verify on chip against certificate key"
            (verifyCheck chip (hostKey point) sig) >>= fun _ =>
          Report.check "ECDSA verify rejects a tampered digest"
            (tamperedCheck chip (hostKey point) sig) >>= fun _ => rest)
        ("ECDSA verify on chip against certificate key" ::
          "ECDSA verify rejects a tampered digest" :: names) log (some point) (some sig) _ Q :=
      Continues.plain (verifyCheck_plain hkey hsig)
        (Continues.plain (tamperedCheck_plain hkey hsig) h)
    rw [chip.length_logged] at hboth
    intro m hm hfailed hlog hpoint hsignature
    unfold verifyChecks
    rw [Effect.bind_assoc]
    apply Ensures.of_ok (get_apply m)
    rw [hpoint, hsignature]
    dsimp only
    rw [Effect.bind_assoc]
    exact hboth.clean m hm hfailed hlog hpoint hsignature

theorem continues_close (hQ : ∀ t : CheckState, t.host.calls = log ++
      [(.command (.closeApplication 0), chip.reply log.length),
        (.cryptDestroy, chip.reply (log.length + 1)),
        (.utilDestroy, chip.reply (log.length + 2))] → Q t) :
    Continues (closeChecks chip) ["close application"] log factoryPub signature
      (chip.reply log.length).Succeeds Q where
  dirty := dirty_close
  clean := by
    rintro m hm hfailed rfl _ _
    obtain ⟨n, hn, hreports, hhost, hanswer⟩ := closeChecks_eq chip hm
    have hend : Q n := by
      apply hQ
      rw [hhost, chip.calls_dropped, Host.length_ran, Host.ran, List.append_assoc]
      rfl
    obtain ⟨hfinishes, hsame⟩ := finish_finishes hreports.tallied
    rw [hsame] at hfinishes
    rw [Ensures, hn, hsame]
    refine ⟨hreports.finishes hfinishes, ?_, fun _ => hend⟩
    rcases hanswer with ⟨hok, heq⟩ | ⟨herr, heq⟩
    · rw [heq, hfailed]
      exact iff_of_true rfl hok
    · rw [heq]
      exact iff_of_false (Nat.succ_ne_zero _) herr

end Continues

/-! ## The answers of a passing run -/

/-- The answers with which every check passes but the one of the tampered digest. The calls of a
passing run are numbered: four for `open`, one for each check and two for the random bytes. -/
structure Healthy (chip : Chip) (point sig : List UInt8) : Prop where
  uid : (chip.reply 4).Succeeds ∧ (readBytes (chip.reply 4)).length = 27
  lifecycle : (chip.reply 5).Succeeds
  securityStatus : (chip.reply 6).Succeeds
  eventCounter : (chip.reply 7).Succeeds
  commBuffer : (chip.reply 8).Succeeds ∧ (readBytes (chip.reply 8)).length = 2
  counter : (chip.reply 9).Succeeds
  metadata : ∀ i < 4, (chip.reply (10 + i)).Succeeds
  certificate : (chip.reply 14).Succeeds ∧ CertificateKey (readBytes (chip.reply 14)) point
  random : (chip.reply 15).Succeeds ∧ (chip.reply 16).Succeeds ∧
    bytes32 (chip.reply 15) ≠ bytes32 (chip.reply 16) ∧ ∃ x ∈ bytes32 (chip.reply 15), x ≠ 0
  hash : (chip.reply 17).Succeeds ∧ bytes32 (chip.reply 17) = WANT
  sign : (chip.reply 18).Succeeds ∧ sig = signatureBytes (chip.reply 18) ∧
    ∃ rs, ecdsaSignatureToRs sig 32 = .ok rs
  verify : (chip.reply 19).Succeeds
  close : (chip.reply 21).Succeeds

/-- The calls of a passing run end with those for the signature, which is verified with the key
of the certificate, once for the signed digest and once for the other one. -/
def EndsVerified (chip : Chip) (t : CheckState) : Prop :=
  ∃ front point sig, front.length = 18 ∧ CertificateKey (readBytes (chip.reply 14)) point ∧
    sig = signatureBytes (chip.reply 18) ∧ t.host.calls = front ++
      [(.command ecdsaSignCommand, chip.reply 18),
        (.command (ecdsaVerifyCommand (hostKey point) digest sig), chip.reply 19),
        (.command (ecdsaVerifyCommand (hostKey point) tampered sig), chip.reply 20),
        (.command (.closeApplication 0), chip.reply 21), (.cryptDestroy, chip.reply 22),
        (.utilDestroy, chip.reply 23)]

theorem CertificateKey.unique {raw p q : List UInt8} (hp : CertificateKey raw p)
    (hq : CertificateKey raw q) : p = q := by
  obtain ⟨der, hder, _, hfound⟩ := hp
  obtain ⟨der', hder', _, hfound'⟩ := hq
  obtain rfl := Outcome.ok.inj (hder.symm.trans hder')
  exact Option.some.inj (Outcome.ok.inj (hfound.symm.trans hfound'))

theorem CertificateKey.length_hostKey {raw p : List UInt8} (h : CertificateKey raw p) :
    (hostKey p).length = 68 := by
  obtain ⟨der, _, _, hfound⟩ := h
  obtain ⟨i, _, hkey, _, rfl⟩ := findP256Spki_eq_some_iff.mp hfound
  rw [hostKey, List.length_append, length_keyBytes hkey]
  rfl

section Main

variable {chip : Chip} {log : List (LibCall × Reply)}

/-- `checks` behind the hash. -/
def signChecks (chip : Chip) : Script :=
  Report.check "ECDSA sign with factory key 0xE0F0" (signCheck chip) >>= fun _ =>
    verifyChecks chip >>= fun _ => closeChecks chip

def signNames : List String :=
  ["ECDSA sign with factory key 0xE0F0", "ECDSA verify on chip against certificate key",
    "ECDSA verify rejects a tampered digest", "close application"]

def SignPasses (chip : Chip) : Prop :=
  ∃ sig, ((chip.reply 18).Succeeds ∧ sig = signatureBytes (chip.reply 18) ∧
      ∃ rs, ecdsaSignatureToRs sig 32 = .ok rs) ∧
    (chip.reply 19).Succeeds ∧ (∃ e, (chip.reply 20).completion.result = .error e) ∧
    (chip.reply 21).Succeeds

theorem continues_sign {point : List UInt8} (hlog : log.length = 18)
    (hcert : CertificateKey (readBytes (chip.reply 14)) point) :
    Continues (signChecks chip) signNames log (some point) none (SignPasses chip)
      (EndsVerified chip) := by
  have hkey : (hostKey point).length < 65536 := by
    rw [hcert.length_hostKey]
    decide
  unfold signChecks SignPasses
  rw [← hlog]
  apply Continues.check signCheck_probe
  · rintro n a b ⟨_, rfl, _⟩ ⟨_, rfl, _⟩
    rfl
  · exact dirty_verify dirty_close
  · rintro sig ⟨_, hsig, _⟩
    have hsiglen : sig.length < 65536 := by
      have := length_signatureBytes (chip.reply log.length)
      rw [hsig]
      omega
    refine Continues.congr (continues_verify hkey hsiglen (continues_close fun t ht => ?_)) ?_
    · rw [hlog] at hsig
      refine ⟨log, point, sig, hlog, hcert, hsig, ?_⟩
      simp only [ht, Chip.logged, List.foldl_cons, List.foldl_nil, List.length_append, hlog,
        List.append_assoc]
      rfl
    · simp only [chip.length_logged, hlog]
      rfl

/-- `checks` behind the certificate. -/
def cryptoChecks (chip : Chip) : Script :=
  Report.check "random 32 bytes (TRNG)" (randomCheck chip) >>= fun _ =>
    Report.check "SHA-256 known answer" (hashCheck chip) >>= fun _ => signChecks chip

def cryptoNames : List String := "random 32 bytes (TRNG)" :: "SHA-256 known answer" :: signNames

def CryptoPasses (chip : Chip) : Prop :=
  ((chip.reply 15).Succeeds ∧ (chip.reply 16).Succeeds ∧
      bytes32 (chip.reply 15) ≠ bytes32 (chip.reply 16) ∧
      ∃ x ∈ bytes32 (chip.reply 15), x ≠ 0) ∧
    ((chip.reply 17).Succeeds ∧ bytes32 (chip.reply 17) = WANT) ∧ SignPasses chip

theorem dirty_crypto : Dirty (cryptoChecks chip) cryptoNames :=
  Dirty.check randomCheck_plain.tame (Dirty.check hashCheck_plain.tame
    (Dirty.check signCheck_probe.tame (dirty_verify dirty_close)))

theorem continues_crypto {point : List UInt8} (hlog : log.length = 15)
    (hcert : CertificateKey (readBytes (chip.reply 14)) point) :
    Continues (cryptoChecks chip) cryptoNames log (some point) none (CryptoPasses chip)
      (EndsVerified chip) := by
  have hsign : (chip.logged (chip.logged log [randomCommand, randomCommand])
      [hashCommand]).length = 18 := by
    simp only [chip.length_logged, hlog]
    rfl
  refine Continues.congr (Continues.plain randomCheck_plain
    (Continues.plain hashCheck_plain (continues_sign hsign hcert))) ?_
  simp only [chip.length_logged, hlog]
  rfl

/-- The names behind the opened application. -/
def laterNames : List String :=
  ["read coprocessor UID (0xE0C2)", "read lifecycle state (0xE0C0)",
    "read security status (0xE0C1)", "read security event counter (0xE0C5)",
    "read max comm buffer size (0xE0C6)", "read monotonic counter (0xE120)",
    "read metadata of factory key slot 0xE0F0", "read metadata of key slot 0xE0F1",
    "read metadata of certificate 0xE0E0", "read metadata of data object 0xF1D1",
    "read factory certificate (0xE0E0)"] ++ cryptoNames

theorem checks_continue (hlog : log.length = 4) :
    Continues (checks chip) laterNames log none none
      ((∃ point sig, Healthy chip point sig) ∧
        ∃ e, (chip.reply 20).completion.result = .error e) (EndsVerified chip) := by
  unfold checks
  refine Continues.congr (Continues.plain (readCheck_uid 0xE0C2)
    (Continues.plain (readCheck_lifecycle 0xE0C0) (Continues.plain (readCheck_hex 0xE0C1)
    (Continues.plain (readCheck_hex 0xE0C5) (Continues.plain (readCheck_commBuffer 0xE0C6)
    (Continues.plain (readCheck_hex 0xE120) (Continues.forM metadataObjects
      (fun o => metadataCheck_plain o.1) (Continues.check certificateCheck_probe
        (fun n p q hp hq => hp.2.unique hq.2) dirty_crypto fun point hpoint =>
          continues_crypto ?_ ?_)))))))) ?_
  · simp only [chip.length_logged, hlog]
    rfl
  · simp only [chip.length_logged, hlog] at hpoint
    exact hpoint.2
  · simp only [chip.length_logged, hlog]
    constructor
    · rintro ⟨huid, hlifecycle, hsecurity, hevents, hcomm, hcounter, hmetadata, point, hcert,
        hrandom, hhash, sig, hsign, hverify, htampered, hclose⟩
      exact ⟨⟨point, sig, huid, hlifecycle, hsecurity, hevents, hcomm, hcounter, hmetadata, hcert,
        hrandom, hhash, hsign, hverify, hclose⟩, htampered⟩
    · rintro ⟨⟨point, sig, h⟩, htampered⟩
      exact ⟨h.uid, h.lifecycle, h.securityStatus, h.eventCounter, h.commBuffer, h.counter,
        h.metadata, point, h.certificate, h.random, h.hash, sig, h.sign, h.verify, htampered,
        h.close⟩

end Main

/-! ## The exit code -/

def checkNames : List String := "open application" :: laterNames

/-- The two checks that may be skipped. -/
def verifyNames : List String :=
  ["ECDSA verify on chip against certificate key", "ECDSA verify rejects a tampered digest"]

/-- The answers of a passing run. -/
structure Passing (chip : Chip) (bus : List UInt8) : Prop where
  opens : Opens chip bus
  healthy : ∃ point sig, Healthy chip point sig
  rejected : ∃ e, (chip.reply 20).completion.result = .error e

theorem Finishes.exitCode_eq_zero_iff {names : List String} {m t : CheckState}
    {r : Outcome Nat Unit} (h : Finishes names m r t) : exitCode r = 0 ↔ t.report.failed = 0 := by
  rw [h.exit]
  split <;> simp [exitCode] <;> omega

/-- A run reports on all checks, or fails to open. -/
theorem mainBus_cases (chip : Chip) (bus : List UInt8) :
    ((mainBus chip bus).Ensures .start fun r t => Finishes checkNames .start r t ∧
        (t.report.failed = 0 ↔ Passing chip bus) ∧ (Passing chip bus → EndsVerified chip t)) ∨
      ¬ Passing chip bus ∧ (mainBus chip bus).Ensures .start fun r t =>
        Finishes ["open application"] .start r t ∧ 0 < t.report.failed := by
  rcases chip.open_cases bus DEFAULT_ADDR with ⟨hopens, host, hopen, hlen⟩ |
    ⟨hopens, e, host, hopen⟩
  · refine Or.inl ?_
    apply Ensures.of_ok (attempt_of_ok (device_of_ok hopen))
    apply Ensures.of_ok (modify_apply _ _)
    have hreports : Reports "open application" .start
        (Report.ok "open application" "" { CheckState.start with host := host }).2 :=
      reports_ok Tallied.start (by rfl) (by rfl) ""
    refine ((checks_continue hlen).clean _ hreports.tallied rfl rfl rfl rfl).mono ?_
    rintro r t ⟨hfinishes, hclean, hend⟩
    have hiff : ((∃ point sig, Healthy chip point sig) ∧
        ∃ e, (chip.reply 20).completion.result = .error e) ↔ Passing chip bus := by
      constructor
      · rintro ⟨hhealthy, hrejected⟩
        exact ⟨hopens, hhealthy, hrejected⟩
      · intro h
        exact ⟨h.healthy, h.rejected⟩
    exact ⟨hreports.finishes hfinishes, hclean.trans hiff, fun h => hend (hiff.mpr h)⟩
  · refine Or.inr ⟨fun h => hopens h.opens, ?_⟩
    apply Ensures.of_ok (attempt_of_err (device_of_err hopen))
    apply Ensures.of_ok (modify_apply _ _)
    have hreports : Reports "open application" .start
        (Report.fail "open application" e { CheckState.start with host := host }).2 :=
      reports_fail Tallied.start (by rfl) (by rfl) e
    refine (finish_finishes hreports.tallied).mono ?_
    rintro r t ⟨hfinishes, rfl⟩
    exact ⟨hreports.finishes hfinishes, Nat.succ_pos 0⟩

/-- Either way the run ends, without a failure exactly on passing answers. -/
theorem mainBus_finishes (chip : Chip) (bus : List UInt8) :
    (mainBus chip bus).Ensures .start fun r t => ∃ names, Finishes names .start r t ∧
      (t.report.failed = 0 → names = checkNames) ∧ (t.report.failed = 0 ↔ Passing chip bus) := by
  rcases mainBus_cases chip bus with h | ⟨hnot, h⟩
  · refine h.mono ?_
    rintro r t ⟨hfinishes, hiff, _⟩
    exact ⟨checkNames, hfinishes, fun _ => rfl, hiff⟩
  · refine h.mono ?_
    rintro r t ⟨hfinishes, hpos⟩
    exact ⟨_, hfinishes, fun hzero => absurd hzero hpos.ne', iff_of_false hpos.ne' hnot⟩

/-! ## Arguments -/

/-- The arguments on which the program only prints its help. -/
def NoBus (args : List String) : Prop :=
  args.length ≠ 1 ∨ args = ["-h"] ∨ args = ["--help"]

theorem main_cases (chip : Chip) (args : List String) :
    NoBus args ∧ main chip args .start = (if args.length = 1 then .ok () else .err 2, .start) ∨
      ∃ b, ¬ NoBus args ∧ args = [b] ∧ main chip args = mainBus chip (asBytes (busPath b)) := by
  match args with
  | [] => exact Or.inl ⟨Or.inl (by simp), rfl⟩
  | _ :: _ :: args => exact Or.inl ⟨Or.inl (by simp), by simp [main]⟩
  | [b] =>
    have hiff : NoBus [b] ↔ b = "-h" ∨ b = "--help" := by simp [NoBus]
    rw [hiff]
    by_cases hhelp : b = "-h" ∨ b = "--help"
    · refine Or.inl ⟨hhelp, ?_⟩
      rw [main, if_pos hhelp]
      rfl
    · exact Or.inr ⟨b, hhelp, rfl, if_neg hhelp⟩

theorem main_of_bus (chip : Chip) {b : String} (h : ¬ NoBus [b]) :
    main chip [b] = mainBus chip (asBytes (busPath b)) := by
  rcases main_cases chip [b] with ⟨hno, _⟩ | ⟨c, _, hargs, hmain⟩
  · exact absurd hno h
  · rw [hmain, (List.cons.inj hargs).1]

theorem main_bus {b : String} (chip : Chip) (hshort : b ≠ "-h") (hlong : b ≠ "--help") :
    main chip [b] = mainBus chip (asBytes (busPath b)) :=
  if_neg (not_or.mpr ⟨hshort, hlong⟩)

/-! ## A chip on which every check passes -/

theorem zero_ne_busyStatus : 0 ≠ busyStatus := by decide

/-- A command that ends well and returns `bytes`. -/
def answer (bytes : List UInt8) : Reply where
  null := false
  completion := .completed 0 zero_ne_busyStatus
  written := [bytes]
  length := UInt32.ofNat bytes.length

theorem succeeds_answer (bytes : List UInt8) : (answer bytes).Succeeds := rfl

theorem output_answer {bytes buf : List UInt8} (h : bytes.length ≤ buf.length) :
    (answer bytes).output 0 buf = bytes ++ buf.drop bytes.length :=
  congrArg (· ++ buf.drop bytes.length) (List.take_of_length_le h)

theorem truncate_answer {bytes buf : List UInt8} (h : bytes.length ≤ buf.length)
    (hlen : bytes.length < 65536) :
    truncate ((answer bytes).output 0 buf) (answer bytes).len16 = bytes := by
  have hlen16 : (answer bytes).len16 = bytes.length := by
    simp only [Reply.len16, answer, UInt32.toNat_toUInt16, UInt32.toNat_ofNat']
    omega
  rw [hlen16, output_answer h]
  exact List.take_left

theorem readBytes_answer {bytes : List UInt8} (h : bytes.length ≤ 2048) :
    readBytes (answer bytes) = bytes :=
  truncate_answer (by rwa [List.length_replicate]) (by omega)

theorem signatureBytes_answer {bytes : List UInt8} (h : bytes.length ≤ 160) :
    signatureBytes (answer bytes) = bytes :=
  truncate_answer (by rwa [List.length_replicate]) (by omega)

theorem bytes32_answer {bytes : List UInt8} (h : bytes.length = 32) :
    bytes32 (answer bytes) = bytes := by
  have hdrop : (List.replicate 32 (0 : UInt8)).drop bytes.length = [] :=
    List.drop_eq_nil_of_le (by rw [List.length_replicate, h])
  rw [bytes32, output_answer (by rw [List.length_replicate, h]), hdrop, List.append_nil]

/-- The integers 5 and 6. -/
def smallSignature : List UInt8 := [0x02, 0x01, 0x05, 0x02, 0x01, 0x06]

/-- A chip on which every check passes, with `r` as the answer for the tampered digest. -/
def checkedChip (r : Reply) : Chip where
  reply
    | 4 => answer (List.replicate 27 0)
    | 8 => answer [0, 0]
    | 14 => answer issuerCert.bytes
    | 15 => answer (List.replicate 32 1)
    | 16 => answer (List.replicate 32 2)
    | 17 => answer WANT
    | 18 => answer smallSignature
    | 20 => r
    | _ => answer []

theorem certificateKey_issuer :
    CertificateKey issuerCert.bytes (0x04 :: List.replicate 64 0x11) :=
  ⟨_, stripCertHeader_bare issuerCert, by decide, by decide⟩

theorem healthy_checkedChip (r : Reply) :
    Healthy (checkedChip r) (0x04 :: List.replicate 64 0x11) smallSignature where
  uid := by
    refine ⟨succeeds_answer _, ?_⟩
    change (readBytes (answer (List.replicate 27 0))).length = 27
    rw [readBytes_answer (by decide), List.length_replicate]
  lifecycle := succeeds_answer _
  securityStatus := succeeds_answer _
  eventCounter := succeeds_answer _
  commBuffer := by
    refine ⟨succeeds_answer _, ?_⟩
    change (readBytes (answer [0, 0])).length = 2
    rw [readBytes_answer (by decide)]
    rfl
  counter := succeeds_answer _
  metadata := by
    rintro (_ | _ | _ | _ | i) hi
    · exact succeeds_answer _
    · exact succeeds_answer _
    · exact succeeds_answer _
    · exact succeeds_answer _
    · omega
  certificate := by
    refine ⟨succeeds_answer _, ?_⟩
    change CertificateKey (readBytes (answer issuerCert.bytes)) _
    rw [readBytes_answer (by decide)]
    exact certificateKey_issuer
  random := by
    refine ⟨succeeds_answer _, succeeds_answer _, ?_⟩
    change bytes32 (answer (List.replicate 32 1)) ≠ bytes32 (answer (List.replicate 32 2)) ∧
      ∃ x ∈ bytes32 (answer (List.replicate 32 1)), x ≠ 0
    rw [bytes32_answer List.length_replicate, bytes32_answer List.length_replicate]
    decide
  hash := ⟨succeeds_answer _, bytes32_answer rfl⟩
  sign := ⟨succeeds_answer _, (signatureBytes_answer (by decide)).symm, _, rfl⟩
  verify := succeeds_answer _
  close := succeeds_answer _

theorem passing_checkedChip {r : Reply} (h : ∃ e, r.completion.result = .error e)
    {bus : List UInt8} (hbus : 0 ∉ bus) : Passing (checkedChip r) bus where
  opens := ⟨hbus, rfl, rfl, succeeds_answer _⟩
  healthy := ⟨_, _, healthy_checkedChip r⟩
  rejected := h

theorem invalid_ne_busyStatus : 0x802C ≠ busyStatus := by decide

/-- The chip finds the signature invalid. -/
def invalidSignature : Reply := ⟨false, .completed 0x802C invalid_ne_busyStatus, [], 0⟩

/-! ## The verdict -/

/-- **A clean exit means that every check ran and passed.** -/
theorem main_verdict (chip : Chip) (b : String) (hshort : b ≠ "-h")
    (hlong : b ≠ "--help") :
    (main chip [b] .start).1 ≠ .panic ∧
      (exitCode (main chip [b] .start).1 = 0 ↔
        (main chip [b] .start).2.lines.map Line.name = checkNames ∧
          ∀ l ∈ (main chip [b] .start).2.lines, l.isOk = true) ∧
      (exitCode (main chip [b] .start).1 = 0 ↔ Passing chip (asBytes (busPath b))) ∧
      SkipsAfterFail (main chip [b] .start).2.lines ∧
      ∀ name, .skip name ∈ (main chip [b] .start).2.lines →
        exitCode (main chip [b] .start).1 ≠ 0 := by
  rw [main_bus chip hshort hlong]
  obtain ⟨names, hfinishes, hnames, hpassing⟩ := mainBus_finishes chip (asBytes (busPath b))
  have htallied := hfinishes.tallied
  have hzero := hfinishes.exitCode_eq_zero_iff
  refine ⟨?_, ?_, hzero.trans hpassing, htallied.skips, ?_⟩
  · rw [hfinishes.exit]
    split <;> simp
  · rw [hzero]
    constructor
    · intro hfailed
      have hlines := hfinishes.names
      rw [hnames hfailed] at hlines
      exact ⟨hlines, htallied.all_ok hfailed⟩
    · rintro ⟨_, hok⟩
      exact htallied.failed_eq_zero hok
  · intro name hskip hexit
    exact absurd (htallied.all_ok (hzero.mp hexit) _ hskip) (by simp [Line.isOk])

/-- The same chip, but the sign command fails. -/
def unsignedChip : Chip where
  reply n := if n = 18 then invalidSignature else (checkedChip invalidSignature).reply n

/-- On bus 3 the first chip passes all checks. On the other one both verify checks are skipped. -/
theorem main_verdict_checked :
    (exitCode (main (checkedChip invalidSignature) ["3"] .start).1 = 0 ∧
      (main (checkedChip invalidSignature) ["3"] .start).2.lines.map Line.name = checkNames) ∧
    ∀ name ∈ verifyNames, .skip name ∈ (main unsignedChip ["3"] .start).2.lines ∧
      exitCode (main unsignedChip ["3"] .start).1 ≠ 0 := by
  constructor
  · obtain ⟨_, hok, hpassing, _⟩ :=
      main_verdict (checkedChip invalidSignature) "3" (by decide) (by decide)
    have hzero := hpassing.mpr (passing_checkedChip ⟨_, rfl⟩ (by decide))
    exact ⟨hzero, (hok.mp hzero).1⟩
  · obtain ⟨_, _, _, _, hskipped⟩ := main_verdict unsignedChip "3" (by decide) (by decide)
    have hskips : ∀ name ∈ verifyNames, .skip name ∈ (main unsignedChip ["3"] .start).2.lines := by
      decide +kernel
    intro name hname
    exact ⟨hskips name hname, hskipped name (hskips name hname)⟩

end Trustm
