import Trustm.Check.Requests
import Trustm.Check.Verdict

/-!
# What is verified

The commands of `trustm-check` that verify a signature, in every run: also in one that has a
failed check behind it, or that fails later.

* `Sourced`: each verify command of a log is for the key of a certificate that stands in front of
  it, and for a signature that the factory key made in front of it.
* `Held`: the two variables of `main` hold nothing else. Every check keeps this (`KeepsHeld`), so a
  run comes to the verifications with it (`Prepares`, `mainBus_prepares`).
* `main_sourced`: the log of every run is sourced.
-/

namespace Trustm

open Outcome Effect

/-- The log of a host. -/
abbrev Log := List (LibCall × Reply)

def LibCommand.verifies : LibCommand → Bool
  | .ecdsaVerify _ _ _ _ _ _ | .rsaVerify _ _ _ _ _ _ _ _ => true
  | _ => false

def LibCall.verifies : LibCall → Bool
  | .command c => c.verifies
  | _ => false

/-- The chip handed out a certificate with the key `p`. -/
def KeyRead (log : Log) (p : List UInt8) : Prop :=
  ∃ r, (.command (readDataCommand 0xE0E0), r) ∈ log ∧ r.Succeeds ∧ CertificateKey (readBytes r) p

/-- The chip signed the digest with its factory key. -/
def SignatureMade (log : Log) (sig : List UInt8) : Prop :=
  ∃ r, (.command ecdsaSignCommand, r) ∈ log ∧ r.Succeeds ∧ sig = signatureBytes r ∧
    ∃ rs, ecdsaSignatureToRs sig 32 = .ok rs

/-- A verify command for a key and a signature from `log`. -/
def FromLog (log : Log) (c : LibCall) : Prop :=
  ∃ p sig d, KeyRead log p ∧ SignatureMade log sig ∧ (d = digest ∨ d = tampered) ∧
    c = .command (ecdsaVerifyCommand (hostKey p) d sig)

def Sourced (log : Log) : Prop :=
  ∀ front c r back, log = front ++ (c, r) :: back → c.verifies = true → FromLog front c

/-! ## Logs -/

section Logs

variable {log front back : Log} {c : LibCall} {r : Reply} {p sig : List UInt8}

theorem KeyRead.append (h : KeyRead front p) (back : Log) : KeyRead (front ++ back) p := by
  obtain ⟨r, hr, hkey⟩ := h
  exact ⟨r, List.mem_append_left back hr, hkey⟩

theorem SignatureMade.append (h : SignatureMade front sig) (back : Log) :
    SignatureMade (front ++ back) sig := by
  obtain ⟨r, hr, hsig⟩ := h
  exact ⟨r, List.mem_append_left back hr, hsig⟩

theorem Sourced.snoc (h : Sourced log) (hc : c.verifies = true → FromLog log c) :
    Sourced (log ++ [(c, r)]) := by
  intro front d s back heq hd
  rcases List.eq_nil_or_concat back with rfl | ⟨back, last, rfl⟩
  · obtain ⟨rfl, hlast⟩ := List.append_inj' heq rfl
    obtain ⟨rfl, rfl⟩ := Prod.mk.inj (List.cons.inj hlast).1
    exact hc hd
  · have hsplit : log ++ [(c, r)] = (front ++ (d, s) :: back) ++ [last] := by
      rw [heq, List.concat_eq_append, List.append_assoc]
      rfl
    exact h front d s back (List.append_inj' hsplit rfl).1 hd

end Logs

/-! ## Calls of the checks -/

section Calls

variable {chip : Chip} {α β : Type}

/-- `x` verifies nothing. -/
abbrev NoVerify {ε : Type} (chip : Chip) (x : Effect CheckState ε α) : Prop :=
  Performs (fun m => m.host.calls) chip.answered x (Language.wordsOf fun c => c.verifies = false)

theorem noVerify_of_eq {ε : Type} {x : Effect CheckState ε α}
    (h : ∀ m, (x m).2.host.calls = m.host.calls) : NoVerify chip x := performs_wordsOf_of_eq h

/-- A command that does not verify, with its answer in the log. -/
theorem noVerify_device {x : Effect Host Error α} {c : LibCommand} {g : Reply → α}
    (hx : Asks chip x c g) (hc : c.verifies = false) : NoVerify chip (device x) := by
  have hone : Performs (fun m : CheckState => m.host.calls) chip.answered (device x)
      {[.command c]} := by
    apply performs_singleton
    intro m
    change (x m.host).2.calls = _
    cases hresult : (chip.next m.host).completion.result with
    | ok u =>
      rw [hx.ok m.host hresult]
      rfl
    | error e =>
      rw [hx.error m.host e hresult]
      rfl
  apply hone.mono
  apply Language.singleton_le_wordsOf
  intro k hk
  rw [List.mem_singleton.mp hk]
  exact hc

theorem readCheck_noVerify (oid : UInt16) (view : List UInt8 → Outcome Error String) :
    NoVerify chip (readCheck chip oid view) :=
  Performs.bind_wordsOf (noVerify_device (readData_asks oid) rfl) fun _ =>
    noVerify_of_eq fun _ => rfl

theorem metadataCheck_noVerify (oid : UInt16) : NoVerify chip (metadataCheck chip oid) :=
  Performs.bind_wordsOf (noVerify_device (readMetadata_asks oid) rfl) fun _ =>
    noVerify_of_eq fun _ => rfl

theorem certificateCheck_noVerify : NoVerify chip (certificateCheck chip) := by
  refine Performs.bind_wordsOf (noVerify_device (readData_asks _) rfl) fun raw => ?_
  refine Performs.bind_wordsOf (noVerify_of_eq fun _ => rfl) fun der => ?_
  refine Performs.bind_wordsOf (noVerify_of_eq fun _ => rfl) fun _ => ?_
  refine Performs.bind_wordsOf (noVerify_of_eq fun _ => rfl) fun found => ?_
  refine Performs.bind_wordsOf (noVerify_of_eq fun _ => rfl) fun point => ?_
  exact noVerify_of_eq fun _ => rfl

theorem randomCheck_noVerify : NoVerify chip (randomCheck chip) := by
  refine Performs.bind_wordsOf (noVerify_device random_asks rfl) fun a => ?_
  refine Performs.bind_wordsOf (noVerify_device random_asks rfl) fun b => ?_
  refine Performs.bind_wordsOf (noVerify_of_eq fun _ => rfl) fun _ => ?_
  refine Performs.bind_wordsOf (noVerify_of_eq fun _ => rfl) fun _ => ?_
  exact Performs.bind_wordsOf (noVerify_of_eq fun _ => rfl) fun _ => noVerify_of_eq fun _ => rfl

theorem hashCheck_noVerify : NoVerify chip (hashCheck chip) :=
  Performs.bind_wordsOf (noVerify_device hashSha256_asks rfl) fun _ => noVerify_of_eq fun _ => rfl

theorem signCheck_noVerify : NoVerify chip (signCheck chip) := by
  refine Performs.bind_wordsOf (noVerify_device ecdsaSign_asks rfl) fun s => ?_
  refine Performs.bind_wordsOf (noVerify_of_eq fun _ => rfl) fun rs => ?_
  exact Performs.bind_wordsOf (noVerify_of_eq fun _ => rfl) fun _ => noVerify_of_eq fun _ => rfl

end Calls

/-! ## Variables -/

/-- Key and signature are those of the log. -/
structure Held (m : CheckState) : Prop where
  key : ∀ p ∈ m.factoryPub, KeyRead m.host.calls p
  signature : ∀ sig ∈ m.signature, SignatureMade m.host.calls sig
  sourced : Sourced m.host.calls

/-- A part of `main` that goes on with what the variables should hold. -/
def KeepsHeld (x : Script) : Prop := ∀ m, Held m → ∃ t, x m = (.ok (), t) ∧ Held t

section Held

variable {chip : Chip} {m : CheckState} {name : String} {f : Effect CheckState Error String}
  {rest : Script}

/-- Such a check adds calls that verify nothing. -/
theorem NoVerify.grows (hf : NoVerify chip f) (m : CheckState) :
    m.host.calls <+: (f m).2.host.calls ∧
      (Sourced m.host.calls → Sourced (f m).2.host.calls) := by
  constructor
  · apply Performs.keeps (I := fun log => m.host.calls <+: log) hf
    · exact fun log c _ h => h.trans (List.prefix_append _ _)
    · exact List.prefix_refl _
  · intro h
    apply Performs.keeps (I := Sourced) hf _ h
    intro log c hc hlog
    apply hlog.snoc
    intro hverifies
    rw [hc] at hverifies
    cases hverifies

/-- A variable that a check assigns gets its value from the answer to the check. -/
theorem KeepsHeld.check {α : Type} {cs : List LibCommand} {C : Nat → α → Prop}
    {key sig : α → Option (List UInt8) → Option (List UInt8)} (hf : Probe chip f cs C key sig)
    (hnone : NoVerify chip f)
    (hkey : ∀ (host : Host) a k p, C host.calls.length a → p ∈ key a k →
      p ∈ k ∨ KeyRead (chip.after host cs).calls p)
    (hsig : ∀ (host : Host) a k s, C host.calls.length a → s ∈ sig a k →
      s ∈ k ∨ SignatureMade (chip.after host cs).calls s) : KeepsHeld (Report.check name f) := by
  intro m hm
  obtain ⟨⟨more, hmore⟩, hsourced⟩ := NoVerify.grows hnone m
  rcases hf m with ⟨a, info, hC, hok⟩ | ⟨_, e, host, herr⟩
  · rw [hok] at hmore hsourced
    refine ⟨_, check_of_ok hok, ?_, ?_, hsourced hm.sourced⟩
    · intro p hp
      rcases hkey m.host a _ p hC hp with hold | hnew
      · exact hmore ▸ (hm.key p hold).append more
      · exact hnew
    · intro s hs
      rcases hsig m.host a _ s hC hs with hold | hnew
      · exact hmore ▸ (hm.signature s hold).append more
      · exact hnew
  · rw [herr] at hmore hsourced
    refine ⟨_, check_of_err herr, ?_, ?_, hsourced hm.sourced⟩
    · exact fun p hp => hmore ▸ (hm.key p hp).append more
    · exact fun s hs => hmore ▸ (hm.signature s hs).append more

theorem KeepsHeld.plain {cs : List LibCommand} {C : Nat → Prop} (hf : Plain chip f cs C)
    (hnone : NoVerify chip f) : KeepsHeld (Report.check name f) :=
  KeepsHeld.check hf hnone (fun _ _ _ _ _ hp => Or.inl hp) (fun _ _ _ _ _ hs => Or.inl hs)

theorem KeepsHeld.forM {α : Type} {f : α → Script} (hf : ∀ x, KeepsHeld (f x)) (xs : List α) :
    KeepsHeld (xs.forM f) := by
  induction xs with
  | nil => exact fun m hm => ⟨m, rfl, hm⟩
  | cons x xs ih =>
    intro m hm
    obtain ⟨t, ht, hheld⟩ := hf x m hm
    obtain ⟨u, hu, hend⟩ := ih t hheld
    exact ⟨u, (bind_of_ok ht).trans hu, hend⟩

theorem metadataChecks_keepHeld : KeepsHeld (metadataObjects.forM fun o =>
    Report.check ("read metadata of " ++ o.2) (metadataCheck chip o.1)) := by
  apply KeepsHeld.forM
  intro o
  exact KeepsHeld.plain (metadataCheck_plain o.1) (metadataCheck_noVerify o.1)

/-- The key is the one of the certificate just read. -/
theorem certificateCheck_keepsHeld : KeepsHeld (Report.check name (certificateCheck chip)) := by
  refine KeepsHeld.check certificateCheck_probe certificateCheck_noVerify ?_
    (fun _ _ _ _ _ hs => Or.inl hs)
  intro host p k q hC hq
  obtain rfl : p = q := Option.some.inj hq
  exact Or.inr ⟨chip.next host, List.mem_append_right _ List.mem_cons_self, hC.1, hC.2⟩

/-- The signature is the one just made. -/
theorem signCheck_keepsHeld : KeepsHeld (Report.check name (signCheck chip)) := by
  refine KeepsHeld.check signCheck_probe signCheck_noVerify (fun _ _ _ _ _ hp => Or.inl hp) ?_
  intro host s k s' hC hs
  obtain rfl : s = s' := Option.some.inj hs
  exact Or.inr ⟨chip.next host, List.mem_append_right _ List.mem_cons_self, hC.1, hC.2.1, hC.2.2⟩

/-! ## Up to the verifications -/

/-- Behind the requests of a word of `L`, `rest` comes to the verifications, and then the variables
hold what they should. -/
def Prepares (chip : Chip) (rest : Script) (L : Language Request) : Prop :=
  ∀ m, Held m → ∃ ks ∈ L, ∃ n, Held n ∧ n.host = ks.foldl chip.behind m.host ∧
    rest m = (verifyChecks chip >>= fun _ => closeChecks chip) n

theorem prepares_one : Prepares chip (verifyChecks chip >>= fun _ => closeChecks chip) 1 :=
  fun m hm => ⟨[], Language.nil_mem_one, m, hm, rfl, rfl⟩

/-- A step that does not end the run, in front of the others. -/
theorem Prepares.step {x : Script} {L M : Language Request} (hx : KeepsHeld x)
    (hrequests : Requests chip x L) (hrest : Prepares chip rest M) :
    Prepares chip (x >>= fun _ => rest) (L * M) := by
  intro m hm
  obtain ⟨t, ht, hheld⟩ := hx m hm
  obtain ⟨ks, hks, hhost⟩ := hrequests m
  rw [ht] at hhost
  obtain ⟨ls, hls, n, hn, hend, hrun⟩ := hrest t hheld
  refine ⟨ks ++ ls, Language.append_mem_mul hks hls, n, hn, ?_, (bind_of_ok ht).trans hrun⟩
  rw [hend, hhost, List.foldl_append]

theorem Prepares.check {L M : Language Request} (hx : KeepsHeld (Report.check name f))
    (hrequests : Requests chip f L) (hrest : Prepares chip rest M) :
    Prepares chip (Report.check name f >>= fun _ => rest) (L * M) :=
  Prepares.step hx (hrequests.check name) hrest

theorem checks_prepare : Prepares chip (checks chip) checkLanguage := by
  have hsign : Prepares chip (Report.check "ECDSA sign with factory key 0xE0F0" (signCheck chip) >>=
      fun _ => verifyChecks chip >>= fun _ => closeChecks chip)
      ({[.call (.ecdsaSign .E0F0 digest)]} * 1) :=
    Prepares.check signCheck_keepsHeld signCheck_requests prepares_one
  rw [mul_one] at hsign
  unfold checks checkLanguage
  simp only [stateObjects, List.map_cons, List.map_nil, List.prod_cons, List.prod_nil, mul_one,
    mul_assoc]
  refine Prepares.check (.plain (readCheck_uid _) (readCheck_noVerify _ _))
    (readCheck_requests 0xE0C2 uidView) ?_
  refine Prepares.check (.plain (readCheck_lifecycle _) (readCheck_noVerify _ _))
    (readCheck_requests 0xE0C0 lifecycleView) ?_
  refine Prepares.check (.plain (readCheck_hex _) (readCheck_noVerify _ _))
    (readCheck_requests 0xE0C1 hexView) ?_
  refine Prepares.check (.plain (readCheck_hex _) (readCheck_noVerify _ _))
    (readCheck_requests 0xE0C5 hexView) ?_
  refine Prepares.check (.plain (readCheck_commBuffer _) (readCheck_noVerify _ _))
    (readCheck_requests 0xE0C6 commBufferView) ?_
  refine Prepares.check (.plain (readCheck_hex _) (readCheck_noVerify _ _))
    (readCheck_requests 0xE120 hexView) ?_
  refine Prepares.step metadataChecks_keepHeld metadataChecks_requests ?_
  refine Prepares.check certificateCheck_keepsHeld certificateCheck_requests ?_
  refine Prepares.check (.plain randomCheck_plain randomCheck_noVerify) randomCheck_requests ?_
  exact Prepares.check (.plain hashCheck_plain hashCheck_noVerify) hashCheck_requests hsign

/-! ## The verifications -/

/-- A check that issues the command `c`, and sets no variable. -/
def Issued (chip : Chip) (f : Effect CheckState Error String) (c : LibCommand) : Prop :=
  ∀ m, ∃ r, f m = (ofExcept r, { m with host := m.host.ran c (chip.next m.host) })

theorem verifyCheck_issued {derKey sig : List UInt8} (hkey : derKey.length < 65536)
    (hsig : sig.length < 65536) :
    Issued chip (verifyCheck chip derKey sig) (ecdsaVerifyCommand derKey digest sig) := by
  have hx : Asks chip (chip.ecdsaVerify .nistP256 derKey digest sig) _ _ :=
    ecdsaVerify_asks hkey (by decide) hsig
  intro m
  cases hresult : (chip.next m.host).completion.result with
  | ok u => exact ⟨.ok "valid", bind_of_ok (device_of_ok (hx.ok m.host hresult))⟩
  | error e => exact ⟨.error e, bind_of_err (device_of_err (hx.error m.host e hresult))⟩

theorem tamperedCheck_issued {derKey sig : List UInt8} (hkey : derKey.length < 65536)
    (hsig : sig.length < 65536) :
    Issued chip (tamperedCheck chip derKey sig) (ecdsaVerifyCommand derKey tampered sig) := by
  have hx : Asks chip (chip.ecdsaVerify .nistP256 derKey tampered sig) _ _ :=
    ecdsaVerify_asks hkey (by decide) hsig
  intro m
  cases hresult : (chip.next m.host).completion.result with
  | ok u =>
    exact ⟨.error _, bind_of_ok (attempt_of_ok (device_of_ok (hx.ok m.host hresult)))⟩
  | error e =>
    exact ⟨.ok "rejected",
      bind_of_ok (attempt_of_err (device_of_err (hx.error m.host e hresult)))⟩

/-- The command is for what the variables hold, and they go on to hold it. -/
theorem Issued.keepsHeld {p sig d : List UInt8}
    (hf : Issued chip f (ecdsaVerifyCommand (hostKey p) d sig)) (hd : d = digest ∨ d = tampered)
    (hm : Held m) (hp : m.factoryPub = some p) (hs : m.signature = some sig) :
    ∃ t, Report.check name f m = (.ok (), t) ∧ Held t ∧ t.factoryPub = some p ∧
      t.signature = some sig := by
  have hheld (t : CheckState)
      (hhost : t.host = m.host.ran (ecdsaVerifyCommand (hostKey p) d sig) (chip.next m.host))
      (hkey : t.factoryPub = m.factoryPub) (hsig : t.signature = m.signature) :
      Held t ∧ t.factoryPub = some p ∧ t.signature = some sig := by
    have hcalls : t.host.calls = m.host.calls ++
        [(.command (ecdsaVerifyCommand (hostKey p) d sig), chip.next m.host)] := by
      rw [hhost]
      rfl
    refine ⟨⟨?_, ?_, ?_⟩, hkey.trans hp, hsig.trans hs⟩
    · rw [hkey, hcalls]
      exact fun q hq => (hm.key q hq).append _
    · rw [hsig, hcalls]
      exact fun s hs => (hm.signature s hs).append _
    · rw [hcalls]
      apply hm.sourced.snoc
      exact fun _ => ⟨p, sig, d, hm.key p hp, hm.signature sig hs, hd, rfl⟩
  obtain ⟨r, hr⟩ := hf m
  cases r with
  | ok info => exact ⟨_, check_of_ok hr, hheld _ rfl rfl rfl⟩
  | error e => exact ⟨_, check_of_err hr, hheld _ rfl rfl rfl⟩

theorem KeyRead.length_hostKey {log : Log} {p : List UInt8} (h : KeyRead log p) :
    (hostKey p).length < 65536 := by
  obtain ⟨r, _, _, hkey⟩ := h
  rw [hkey.length_hostKey]
  decide

theorem SignatureMade.length_lt {log : Log} {sig : List UInt8} (h : SignatureMade log sig) :
    sig.length < 65536 := by
  obtain ⟨r, _, _, rfl, _⟩ := h
  exact (length_signatureBytes r).trans_lt (by decide)

/-- What the library says about the calls of the handle does not matter. -/
theorem Housekeeps.sourced {α : Type} {x : Effect Host Error α} (hx : Housekeeps chip x) {s : Host}
    (hs : Sourced s.calls) : Sourced (x s).2.calls := by
  apply Performs.keeps (I := Sourced) hx _ hs
  intro log c hc hlog
  apply hlog.snoc
  intro hverifies
  cases c with
  | command c => cases c <;> simp [LibCall.verifies, LibCommand.verifies, LibCall.housekeeping,
      LibCommand.application] at hc hverifies
  | _ => cases hverifies

/-- Both commands are for the key and the signature that the variables hold. -/
theorem verifyChecks_keepsHeld : KeepsHeld (verifyChecks chip) := by
  intro m hm
  unfold verifyChecks
  rw [bind_of_ok (get_apply m)]
  cases hsig : m.signature with
  | none => exact ⟨_, rfl, hm.key, hm.signature, hm.sourced⟩
  | some sig =>
    cases hkey : m.factoryPub with
    | none => exact ⟨_, rfl, hm.key, hm.signature, hm.sourced⟩
    | some p =>
      have hpkey := (hm.key p hkey).length_hostKey
      have hsiglen := (hm.signature sig hsig).length_lt
      obtain ⟨n, hn, hheld, hkey, hsig⟩ :=
        (verifyCheck_issued hpkey hsiglen).keepsHeld (Or.inl rfl) hm hkey hsig
      obtain ⟨t, ht, hend, _⟩ :=
        (tamperedCheck_issued hpkey hsiglen).keepsHeld (Or.inr rfl) hheld hkey hsig
      exact ⟨t, (bind_of_ok hn).trans ht, hend⟩

theorem verifyAndClose_sourced (hm : Held m) :
    Sourced ((verifyChecks chip >>= fun _ => closeChecks chip) m).2.host.calls := by
  obtain ⟨t, ht, hheld⟩ := @verifyChecks_keepsHeld chip m hm
  have hclose : Requests chip (closeChecks chip) {[.close]} := closeChecks_requests
  obtain ⟨ks, rfl, hclosed⟩ := hclose t
  rw [bind_of_ok ht, hclosed]
  exact Housekeeps.sourced housekeeps_close hheld.sourced

end Held

/-! ## Runs -/

theorem sourced_start : Sourced Host.start.calls := by
  intro front c r back heq
  cases front <;> cases heq

theorem sourced_open (chip : Chip) (bus : List UInt8) :
    Sourced (chip.behind .start (.open bus DEFAULT_ADDR)).calls :=
  Housekeeps.sourced (housekeeps_open _ _) sourced_start

/-- A run on a bus comes to the verifications, or it fails to open. -/
theorem mainBus_prepares (chip : Chip) (bus : List UInt8) :
    (Opens chip bus ∧ ∃ ks ∈ checkLanguage, ∃ n, Held n ∧
      n.host = (Request.open bus DEFAULT_ADDR :: ks).foldl chip.behind .start ∧
      mainBus chip bus .start = (verifyChecks chip >>= fun _ => closeChecks chip) n) ∨
    ¬ Opens chip bus ∧ ∃ n, n.host = chip.behind .start (.open bus DEFAULT_ADDR) ∧
      mainBus chip bus .start = Report.finish n := by
  have hsourced := sourced_open chip bus
  rcases chip.open_cases bus DEFAULT_ADDR with ⟨hopens, t, hopen, _⟩ | ⟨hopens, e, t, hopen⟩
  · have hbehind : chip.behind .start (.open bus DEFAULT_ADDR) = t := by
      rw [Chip.behind, hopen]
    let m := (Report.ok "open application" "" { CheckState.start with host := t }).2
    have hrun : mainBus chip bus .start = checks chip m := by
      rw [mainBus, bind_of_ok (attempt_of_ok (device_of_ok hopen))]
      exact bind_of_ok (modify_apply _ _)
    have hheld : Held m := by
      refine ⟨?_, ?_, ?_⟩
      · intro p hp
        have hnone : none = some p := hp
        cases hnone
      · intro s hs
        have hnone : none = some s := hs
        cases hnone
      · rw [hbehind] at hsourced
        exact hsourced
    obtain ⟨ks, hks, n, hn, hhost, hchecks⟩ := @checks_prepare chip m hheld
    refine Or.inl ⟨hopens, ks, hks, n, hn, ?_, hrun.trans hchecks⟩
    rw [List.foldl_cons, hbehind]
    exact hhost
  · let m := (Report.fail "open application" e { CheckState.start with host := t }).2
    refine Or.inr ⟨hopens, m, ?_, ?_⟩
    · rw [Chip.behind, hopen]
      rfl
    · rw [mainBus, bind_of_ok (attempt_of_err (device_of_err hopen))]
      exact bind_of_ok (modify_apply _ _)

/-- **What is verified comes from the same run**: no verify command is for a key or a signature
that the chip did not hand out in front of it. -/
theorem main_sourced (chip : Chip) (args : List String) :
    Sourced (main chip args .start).2.host.calls := by
  rcases main_cases chip args with ⟨_, hno⟩ | ⟨b, _, _, hmain⟩
  · rw [hno]
    exact sourced_start
  · rw [hmain]
    rcases mainBus_prepares chip (asBytes (busPath b)) with ⟨_, _, _, n, hheld, _, hrun⟩ |
      ⟨_, n, hhost, hrun⟩
    · rw [hrun]
      exact verifyAndClose_sourced hheld
    · rw [hrun, finish_apply]
      change Sourced n.host.calls
      rw [hhost]
      exact sourced_open _ _

end Trustm
