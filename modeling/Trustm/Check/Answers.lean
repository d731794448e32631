import Trustm.Check.Main
import Trustm.Signature.Decode

/-!
# What the checks ask and accept

One specification for each check of `trustm-check`: the commands it issues, and the condition on
the answers under which it passes. No check panics, whatever the library answers.

* `Asks`: a method that issues one command and returns a function of the answer.
* `Probe`: a check that passes exactly on some answers, and then assigns a variable of `main`;
  `Plain` is a check that assigns none.
-/

namespace Trustm

open Outcome Effect

def Reply.Succeeds (r : Reply) : Prop := r.completion.result = .ok ()

/-! ## Methods -/

section Methods

variable {α : Type} {chip : Chip}

structure Asks (chip : Chip) (x : Effect Host Error α) (c : LibCommand) (g : Reply → α) :
    Prop where
  ok : ∀ s, (chip.next s).Succeeds → x s = (.ok (g (chip.next s)), s.ran c (chip.next s))
  error : ∀ s e, (chip.next s).completion.result = .error e →
    x s = (.err e, s.ran c (chip.next s))

theorem asks_run (c : LibCommand) (g : Reply → α) :
    Asks chip (chip.run c >>= fun reply => pure (g reply)) c g where
  ok _ h := bind_of_ok (chip.run_of_ok h)
  error _ _ h := bind_of_err (chip.run_of_error h)

/-- The bytes of a data object. -/
def readBytes (r : Reply) : List UInt8 := truncate (r.output 0 (List.replicate 2048 0)) r.len16

def readDataCommand (oid : UInt16) : LibCommand :=
  .readData oid 0 (List.replicate 2048 0) (UInt16.ofNat (List.replicate 2048 (0 : UInt8)).length)

theorem readData_asks (oid : UInt16) :
    Asks chip (chip.readData oid 0) (readDataCommand oid) readBytes := by
  unfold Chip.readData
  rw [zeros_bind (by decide)]
  exact asks_run _ _

def metadataBytes (r : Reply) : List UInt8 :=
  truncate (r.output 0 (List.replicate 256 0)) r.len16

def readMetadataCommand (oid : UInt16) : LibCommand :=
  .readMetadata oid (List.replicate 256 0) (UInt16.ofNat (List.replicate 256 (0 : UInt8)).length)

theorem readMetadata_asks (oid : UInt16) :
    Asks chip (chip.readMetadata oid) (readMetadataCommand oid) metadataBytes := by
  unfold Chip.readMetadata
  rw [zeros_bind (by decide)]
  exact asks_run _ _

/-- The 32 bytes of a draw or a digest. -/
def bytes32 (r : Reply) : List UInt8 := r.output 0 (List.replicate 32 0)

def randomCommand : LibCommand := .random RngType.trng.raw (List.replicate 32 0) 32

theorem random_asks : Asks chip (chip.random .trng 32) randomCommand bytes32 := by
  unfold Chip.random
  rw [if_neg (by decide)]
  change Asks chip (zeros 32 >>= _) _ _
  rw [zeros_bind (by decide)]
  exact asks_run _ _

def hashCommand : LibCommand :=
  .hash OPTIGA_HASH_TYPE_SHA_256 OPTIGA_CRYPT_HOST_DATA.toUInt8
    (.host abc (UInt32.ofNat abc.length)) (List.replicate 32 0)

theorem hashSha256_asks : Asks chip (chip.hashSha256 abc) hashCommand bytes32 := by
  unfold Chip.hashSha256 tryU32
  rw [tryFrom_bind (by decide)]
  exact asks_run _ _

def signatureBytes (r : Reply) : List UInt8 :=
  truncate (r.output 0 (List.replicate 160 0)) r.len16

def ecdsaSignCommand : LibCommand :=
  .ecdsaSign digest (UInt8.ofNat digest.length) KeyId.E0F0.raw (List.replicate 160 0)
    (UInt16.ofNat (List.replicate 160 (0 : UInt8)).length)

theorem ecdsaSign_asks :
    Asks chip (chip.ecdsaSign .E0F0 digest) ecdsaSignCommand signatureBytes := by
  unfold Chip.ecdsaSign tryU8
  rw [tryFrom_bind (by decide), zeros_bind (by decide)]
  exact asks_run _ _

/-- The verify command for a host key on the curve of the factory key. -/
def ecdsaVerifyCommand (derKey d sig : List UInt8) : LibCommand :=
  .ecdsaVerify d (UInt8.ofNat d.length) sig (UInt16.ofNat sig.length)
    OPTIGA_CRYPT_HOST_DATA.toUInt8
    (.host ⟨derKey, UInt16.ofNat derKey.length, EccCurve.nistP256.raw.toUInt8⟩)

theorem ecdsaVerify_asks {derKey d sig : List UInt8} (hkey : derKey.length < 65536)
    (hd : d.length < 256) (hsig : sig.length < 65536) :
    Asks chip (chip.ecdsaVerify .nistP256 derKey d sig) (ecdsaVerifyCommand derKey d sig)
      fun _ => () := by
  unfold Chip.ecdsaVerify tryU8 tryU16
  rw [tryFrom_bind hd, tryFrom_bind hsig, tryFrom_bind hkey]
  exact asks_run _ _

theorem length_signatureBytes (r : Reply) : (signatureBytes r).length ≤ 160 := by
  have hle := length_truncate_le (r.output 0 (List.replicate 160 0)) r.len16
  rw [r.length_output, List.length_replicate] at hle
  exact hle

theorem length_bytes32 (r : Reply) : (bytes32 r).length = 32 := by
  rw [bytes32, r.length_output, List.length_replicate]

end Methods

/-! ## Checks -/

/-- The host behind some commands, one after the other. -/
def Chip.after (chip : Chip) (s : Host) (cs : List LibCommand) : Host :=
  cs.foldl (fun s c => s.ran c (chip.next s)) s

section Checks

variable {α : Type} {chip : Chip}

/-- `f` passes exactly when the answers from call number `n` on satisfy `C n` for some value. It
issues the commands `cs` then, and the two variables become `key` and `sig` of the value. -/
def Probe (chip : Chip) (f : Effect CheckState Error String) (cs : List LibCommand)
    (C : Nat → α → Prop) (key sig : α → Option (List UInt8) → Option (List UInt8)) : Prop :=
  ∀ m : CheckState,
    (∃ a info, C m.host.calls.length a ∧ f m = (.ok info, { m with
      host := chip.after m.host cs
      factoryPub := key a m.factoryPub
      signature := sig a m.signature })) ∨
    (∀ a, ¬ C m.host.calls.length a) ∧ ∃ e host, f m = (.err e, { m with host := host })

/-- A probe that leaves the variables alone. -/
def Plain (chip : Chip) (f : Effect CheckState Error String) (cs : List LibCommand)
    (C : Nat → Prop) : Prop :=
  Probe chip f cs (fun n (_ : Unit) => C n) (fun _ key => key) (fun _ sig => sig)

theorem device_of_ok {x : Effect Host Error α} {m : CheckState} {a : α} {t : Host}
    (h : x m.host = (.ok a, t)) : device x m = (.ok a, { m with host := t }) := by
  rw [device, on_apply, h]

theorem device_of_err {x : Effect Host Error α} {m : CheckState} {e : Error} {t : Host}
    (h : x m.host = (.err e, t)) : device x m = (.err e, { m with host := t }) := by
  rw [device, on_apply, h]

section Rules

variable {β : Type} {f : Effect CheckState Error String} {cs : List LibCommand}
  {C : Nat → α → Prop} {key sig : α → Option (List UInt8) → Option (List UInt8)}

theorem Probe.congr {C' : Nat → α → Prop} (h : Probe chip f cs C key sig)
    (hC : ∀ n a, C n a ↔ C' n a) : Probe chip f cs C' key sig := by
  have heq : C = C' := funext fun n => funext fun a => propext (hC n a)
  rwa [← heq]

theorem plain_pure (info : String) : Plain chip (pure info) [] fun _ => True := fun _ =>
  Or.inl ⟨(), info, trivial, rfl⟩

/-- A computed text or error at the end. -/
theorem plain_lift {x : Outcome Error String} (hx : x ≠ .panic) :
    Plain chip (lift x) [] fun _ => ∃ info, x = .ok info := by
  intro m
  cases x with
  | ok info => exact Or.inl ⟨(), info, ⟨info, rfl⟩, rfl⟩
  | err e =>
    refine Or.inr ⟨?_, e, m.host, rfl⟩
    rintro _ ⟨info, heq⟩
    cases heq
  | panic => exact absurd rfl hx

theorem probe_factoryPub (p : List UInt8) (info : String) :
    Probe chip (modify (fun m => { m with factoryPub := some p }) >>= fun _ => pure info) []
      (fun _ a => a = p) (fun a _ => some a) (fun _ sig => sig) := fun _ =>
  Or.inl ⟨p, info, rfl, rfl⟩

theorem probe_signature (s : List UInt8) (info : String) :
    Probe chip (modify (fun m => { m with signature := some s }) >>= fun _ => pure info) []
      (fun _ a => a = s) (fun _ key => key) (fun a _ => some a) := fun _ =>
  Or.inl ⟨s, info, rfl, rfl⟩

/-- A step without a command. -/
theorem probe_lift {x : Outcome Error β} {k : β → Effect CheckState Error String}
    {C : β → Nat → α → Prop} (hx : x ≠ .panic)
    (h : ∀ b, x = .ok b → Probe chip (k b) cs (C b) key sig) :
    Probe chip (lift x >>= k) cs (fun n a => ∃ b, x = .ok b ∧ C b n a) key sig := by
  intro m
  cases hb : x with
  | ok b =>
    rw [bind_of_ok (lift_apply _ m)]
    rcases h b hb m with ⟨a, info, ha, hok⟩ | ⟨hnone, herr⟩
    · exact Or.inl ⟨a, info, ⟨b, rfl, ha⟩, hok⟩
    · refine Or.inr ⟨?_, herr⟩
      rintro a ⟨b', hb', ha⟩
      cases hb'
      exact hnone a ha
  | err e =>
    refine Or.inr ⟨?_, e, m.host, bind_of_err (lift_apply _ m)⟩
    rintro a ⟨b, hb', _⟩
    cases hb'
  | panic => exact absurd hb hx

theorem probe_expect {c : Prop} [Decidable c] {msg : String} (h : c → Probe chip f cs C key sig) :
    Probe chip (lift (expect c msg) >>= fun _ => f) cs (fun n a => c ∧ C n a) key sig := by
  have hne : expect c msg ≠ .panic := by
    unfold expect
    split <;> simp
  have hiff : expect c msg = .ok () ↔ c := by
    unfold expect
    split <;> simp [*]
  apply (probe_lift hne fun _ hc => h (hiff.mp hc)).congr
  intro n a
  constructor
  · rintro ⟨_, hc, ha⟩
    exact ⟨hiff.mp hc, ha⟩
  · rintro ⟨hc, ha⟩
    exact ⟨(), hiff.mpr hc, ha⟩

/-- A command in front; what follows it may read the answer. -/
theorem probe_device {x : Effect Host Error β} {c : LibCommand} {g : Reply → β}
    {k : β → Effect CheckState Error String} {C : Reply → Nat → α → Prop} (hx : Asks chip x c g)
    (h : ∀ r, Probe chip (k (g r)) cs (C r) key sig) :
    Probe chip (device x >>= k) (c :: cs)
      (fun n a => (chip.reply n).Succeeds ∧ C (chip.reply n) (n + 1) a) key sig := by
  intro m
  cases hresult : (chip.next m.host).completion.result with
  | ok u =>
    have hlen := m.host.length_ran c (chip.next m.host)
    rw [bind_of_ok (device_of_ok (hx.ok m.host hresult))]
    rcases h (chip.next m.host) { m with host := m.host.ran c (chip.next m.host) } with
      ⟨a, info, ha, hok⟩ | ⟨hnone, herr⟩
    · exact Or.inl ⟨a, info, ⟨hresult, hlen ▸ ha⟩, hok⟩
    · exact Or.inr ⟨fun a ha => hnone a (hlen.symm ▸ ha.2), herr⟩
  | error e =>
    rw [bind_of_err (device_of_err (hx.error m.host e hresult))]
    refine Or.inr ⟨?_, e, _, rfl⟩
    intro a ha
    cases hresult.symm.trans ha.1

/-- One command and a look at what it returned. -/
theorem plain_view {x : Effect Host Error β} {c : LibCommand} {g : Reply → β}
    {view : β → Outcome Error String} (accepts : β → Prop) (hx : Asks chip x c g)
    (hpanic : ∀ v, view v ≠ .panic) (hview : ∀ v, (∃ info, view v = .ok info) ↔ accepts v) :
    Plain chip (device x >>= fun v => lift (view v)) [c] fun n =>
      (chip.reply n).Succeeds ∧ accepts (g (chip.reply n)) := by
  have hprobe : Plain chip (device x >>= fun v => lift (view v)) [c] fun n =>
      (chip.reply n).Succeeds ∧ ∃ info, view (g (chip.reply n)) = .ok info :=
    probe_device (C := fun r _ _ => ∃ info, view (g r) = .ok info) hx fun r =>
      plain_lift (hpanic (g r))
  apply hprobe.congr
  intro n _
  exact and_congr_right fun _ => hview _

/-- One command whose answer is always good. -/
theorem plain_text {x : Effect Host Error β} {c : LibCommand} {g : Reply → β} (text : β → String)
    (hx : Asks chip x c g) :
    Plain chip (device x >>= fun v => lift (.ok (text v))) [c] fun n =>
      (chip.reply n).Succeeds := by
  apply (plain_view (fun _ => True) hx (by simp) (by simp)).congr
  intro n _
  exact and_iff_left trivial

end Rules

/-! ## The checks of `main` -/

theorem expect_bind_eq_ok_iff {β : Type} {c : Prop} [Decidable c] {msg : String}
    {x : Outcome Error β} {b : β} : (expect c msg >>= fun _ => x) = .ok b ↔ c ∧ x = .ok b := by
  unfold expect
  split <;> simp [*]

theorem expect_bind_ne_panic {β : Type} {c : Prop} [Decidable c] {msg : String}
    {x : Outcome Error β} (hx : c → x ≠ .panic) : (expect c msg >>= fun _ => x) ≠ .panic := by
  unfold expect
  split
  · rename_i hc
    exact hx hc
  · simp

theorem exists_expect_bind_iff {c : Prop} [Decidable c] {msg info : String} :
    (∃ i, (expect c msg >>= fun _ => pure info) = .ok i) ↔ c := by
  simp [expect_bind_eq_ok_iff]

theorem readCheck_hex (oid : UInt16) :
    Plain chip (readCheck chip oid hexView) [readDataCommand oid] fun n =>
      (chip.reply n).Succeeds :=
  plain_text hex (readData_asks oid)

theorem readCheck_lifecycle (oid : UInt16) :
    Plain chip (readCheck chip oid lifecycleView) [readDataCommand oid] fun n =>
      (chip.reply n).Succeeds :=
  plain_text (fun v => hex v ++ " (" ++ lifecycleName v ++ ")") (readData_asks oid)

theorem readCheck_uid (oid : UInt16) :
    Plain chip (readCheck chip oid uidView) [readDataCommand oid] fun n =>
      (chip.reply n).Succeeds ∧ (readBytes (chip.reply n)).length = 27 := by
  apply plain_view (fun v => v.length = 27) (readData_asks oid)
  · intro v
    exact expect_bind_ne_panic fun _ => by simp
  · intro v
    exact exists_expect_bind_iff

/-- Both bytes are there when they are read. -/
theorem readCheck_commBuffer (oid : UInt16) :
    Plain chip (readCheck chip oid commBufferView) [readDataCommand oid] fun n =>
      (chip.reply n).Succeeds ∧ (readBytes (chip.reply n)).length = 2 := by
  apply plain_view (fun v => v.length = 2) (readData_asks oid)
  · intro v
    apply expect_bind_ne_panic
    intro h
    obtain ⟨a, b, rfl⟩ := List.length_eq_two.mp h
    simp
  · intro v
    constructor
    · rintro ⟨info, h⟩
      exact (expect_bind_eq_ok_iff.mp h).1
    · intro h
      obtain ⟨a, b, rfl⟩ := List.length_eq_two.mp h
      exact ⟨_, rfl⟩

theorem metadataCheck_plain (oid : UInt16) :
    Plain chip (metadataCheck chip oid) [readMetadataCommand oid] fun n =>
      (chip.reply n).Succeeds :=
  plain_text hex (readMetadata_asks oid)

theorem stripCertHeader_ne_panic (raw : List UInt8) : stripCertHeader raw ≠ .panic := by
  unfold stripCertHeader
  split
  · simp
  · split
    · rename_i hlong
      rw [sliceFrom_of_le (by omega)]
      simp
    · simp

/-- The contents of 0xE0E0 lead to the key `p`. -/
def CertificateKey (raw p : List UInt8) : Prop :=
  ∃ der, stripCertHeader raw = .ok der ∧ [0x30, 0x82] <+: der ∧ findP256Spki der = .ok (some p)

theorem certificateCheck_probe :
    Probe chip (certificateCheck chip) [readDataCommand 0xE0E0]
      (fun n p => (chip.reply n).Succeeds ∧ CertificateKey (readBytes (chip.reply n)) p)
      (fun p _ => some p) (fun _ sig => sig) := by
  unfold certificateCheck
  refine Probe.congr (probe_device (readData_asks _) fun r =>
    probe_lift (stripCertHeader_ne_panic _) fun der _ => probe_expect fun _ =>
      probe_lift (findP256Spki_ne_panic _) fun found _ =>
        probe_lift ?_ fun p _ => probe_factoryPub p _) ?_
  · cases found <;> simp
  · intro n p
    apply and_congr_right
    intro _
    constructor
    · rintro ⟨der, hder, hseq, found, hfound, q, hq, rfl⟩
      cases found with
      | none => cases hq
      | some q' =>
        cases hq
        exact ⟨der, hder, hseq, hfound⟩
    · rintro ⟨der, hder, hseq, hfound⟩
      exact ⟨der, hder, hseq, some p, hfound, p, rfl, rfl⟩

theorem randomCheck_plain :
    Plain chip (randomCheck chip) [randomCommand, randomCommand] fun n =>
      (chip.reply n).Succeeds ∧ (chip.reply (n + 1)).Succeeds ∧
        bytes32 (chip.reply n) ≠ bytes32 (chip.reply (n + 1)) ∧
        ∃ x ∈ bytes32 (chip.reply n), x ≠ 0 := by
  have hslice (r : Reply) : (sliceTo (bytes32 r) 8 : Outcome Error (List UInt8)) =
      .ok ((bytes32 r).take 8) := sliceTo_of_le (by rw [length_bytes32]; decide)
  unfold randomCheck
  refine Probe.congr (probe_device random_asks fun r => probe_device random_asks fun r' =>
    probe_expect fun _ => probe_expect fun _ =>
      probe_lift (by simp [hslice]) fun first _ => plain_pure _) ?_
  intro n _
  simp [hslice]

theorem hashCheck_plain :
    Plain chip (hashCheck chip) [hashCommand] fun n =>
      (chip.reply n).Succeeds ∧ bytes32 (chip.reply n) = WANT := by
  apply plain_view (fun d => d = WANT) hashSha256_asks
  · intro d
    exact expect_bind_ne_panic fun _ => by simp
  · intro d
    exact exists_expect_bind_iff

/-! ## Signatures -/

theorem ecdsaSignatureToRs_ne_panic (sig : List UInt8) : ecdsaSignatureToRs sig 32 ≠ .panic := by
  have halloc : 2 * 32 ≤ isizeMax := by decide
  rcases ecdsaSignatureToRs_cases sig halloc with ⟨c₁, c₂, hc, hw₁, hw₂⟩ | ⟨e, he⟩
  · obtain ⟨rfl, hc₁, hc₂⟩ := hc
    rw [ecdsaSignatureToRs_integers halloc hc₁ hc₂ hw₁ hw₂]
    simp
  · rw [he]
    simp

theorem length_of_toRs {sig rs : List UInt8} (h : ecdsaSignatureToRs sig 32 = .ok rs) :
    rs.length = 64 := by
  obtain ⟨_, c₁, c₂, _, hw₁, hw₂, rfl⟩ := eq_components_of_ok h
  exact length_components hw₁ hw₂

theorem signCheck_probe :
    Probe chip (signCheck chip) [ecdsaSignCommand]
      (fun n sig => (chip.reply n).Succeeds ∧ sig = signatureBytes (chip.reply n) ∧
        ∃ rs, ecdsaSignatureToRs sig 32 = .ok rs)
      (fun _ key => key) (fun sig _ => some sig) := by
  unfold signCheck
  refine Probe.congr (probe_device ecdsaSign_asks fun r =>
    probe_lift (ecdsaSignatureToRs_ne_panic _) fun rs _ => probe_expect fun _ =>
      probe_signature _ _) ?_
  intro n sig
  apply and_congr_right
  intro _
  constructor
  · rintro ⟨rs, hrs, _, rfl⟩
    exact ⟨rfl, rs, hrs⟩
  · rintro ⟨rfl, rs, hrs⟩
    exact ⟨rs, hrs, length_of_toRs hrs, rfl⟩

section Verify

variable {derKey sig : List UInt8} (hkey : derKey.length < 65536) (hsig : sig.length < 65536)

include hkey hsig

theorem verifyCheck_plain :
    Plain chip (verifyCheck chip derKey sig) [ecdsaVerifyCommand derKey digest sig] fun n =>
      (chip.reply n).Succeeds := by
  have hasks : Asks chip (chip.ecdsaVerify .nistP256 derKey digest sig) _ _ :=
    ecdsaVerify_asks hkey (by decide) hsig
  unfold verifyCheck
  refine Probe.congr (probe_device (C := fun _ _ _ => True) hasks fun _ => plain_pure "valid") ?_
  intro n _
  exact and_iff_left trivial

/-- Every error counts as a rejection. -/
theorem tamperedCheck_plain :
    Plain chip (tamperedCheck chip derKey sig) [ecdsaVerifyCommand derKey tampered sig] fun n =>
      ∃ e, (chip.reply n).completion.result = .error e := by
  have hasks : Asks chip (chip.ecdsaVerify .nistP256 derKey tampered sig) _ _ :=
    ecdsaVerify_asks hkey (by decide) hsig
  intro m
  unfold tamperedCheck
  cases hresult : (chip.next m.host).completion.result with
  | ok u =>
    rw [bind_of_ok (attempt_of_ok (device_of_ok (hasks.ok m.host hresult)))]
    refine Or.inr ⟨?_, _, _, rfl⟩
    rintro _ ⟨e, he⟩
    cases hresult.symm.trans he
  | error e =>
    rw [bind_of_ok (attempt_of_err (device_of_err (hasks.error m.host e hresult)))]
    exact Or.inl ⟨(), "rejected", ⟨e, hresult⟩, rfl⟩

end Verify

end Checks

/-! ## Open and close -/

section Handle

variable (chip : Chip)

theorem Chip.next_eq (s : Host) (n : Nat) (h : s.calls.length = n) :
    chip.next s = chip.reply n := by
  rw [Chip.next, h]

/-- The host behind `Drop::drop`. -/
def Chip.dropped (s : Host) : Host :=
  let s := s.called .cryptDestroy (chip.next s)
  let s := s.called .utilDestroy (chip.next s)
  { s with OPEN := false }

theorem Chip.calls_dropped (s : Host) : (chip.dropped s).calls = s.calls ++
    [(.cryptDestroy, chip.reply s.calls.length),
      (.utilDestroy, chip.reply (s.calls.length + 1))] := by
  have hnext := chip.next_eq _ _ (s.length_called .cryptDestroy (chip.next s))
  change (s.calls ++ [_]) ++ [(.utilDestroy, chip.next (s.called .cryptDestroy _))] = _
  rw [hnext, List.append_assoc]
  rfl

theorem Chip.drop_apply (s : Host) : chip.drop s = (.ok (), chip.dropped s) := rfl

/-- The handle is dropped with or without an answer to the last command. -/
theorem Chip.close_cases (s : Host) :
    ((chip.next s).Succeeds ∧ chip.close s =
      (.ok (), chip.dropped (s.ran (.closeApplication 0) (chip.next s)))) ∨
    ¬ (chip.next s).Succeeds ∧ ∃ e, chip.close s =
      (.err e, chip.dropped (s.ran (.closeApplication 0) (chip.next s))) := by
  unfold Chip.close
  cases hresult : (chip.next s).completion.result with
  | ok u =>
    rw [bind_of_ok (attempt_of_ok (chip.run_of_ok hresult)), bind_of_ok (chip.drop_apply _)]
    exact Or.inl ⟨hresult, rfl⟩
  | error e =>
    rw [bind_of_ok (attempt_of_err (chip.run_of_error hresult)), bind_of_ok (chip.drop_apply _)]
    refine Or.inr ⟨?_, e, rfl⟩
    intro hok
    cases hresult.symm.trans hok

/-- The answers with which `open` succeeds as the first thing a process does. -/
structure Opens (bus : List UInt8) : Prop where
  bus : 0 ∉ bus
  util : (chip.reply 1).null = false
  crypt : (chip.reply 2).null = false
  application : (chip.reply 3).Succeeds

theorem Chip.call_bind {α : Type} (c : LibCall) (f : Reply → Effect Host Error α) (s : Host) :
    (chip.call c >>= f) s = f (chip.next s) (s.called c (chip.next s)) := rfl

theorem Chip.openInner_cases (bus : List UInt8) (addr : UInt8) {s : Host} (hs : s.calls = []) :
    (Opens chip bus ∧ ∃ t, chip.openInner bus addr s = (.ok (), t) ∧ t.calls.length = 4) ∨
    ¬ Opens chip bus ∧ ∃ e t, chip.openInner bus addr s = (.err e, t) := by
  have hzero : s.calls.length = 0 := by rw [hs, List.length_nil]
  unfold Chip.openInner
  by_cases hnul : 0 ∈ bus
  · rw [if_pos hnul]
    exact Or.inr ⟨fun h => h.bus hnul, _, _, rfl⟩
  · simp only [if_neg hnul, chip.call_bind]
    generalize hs₁ : s.called (.configure bus addr) (chip.next s) = s₁
    have hone : s₁.calls.length = 1 := by rw [← hs₁, Host.length_called, hzero]
    rw [chip.next_eq s₁ 1 hone]
    by_cases hutil : (chip.reply 1).null = true
    · rw [if_pos hutil]
      exact Or.inr ⟨fun h => by simp [h.util] at hutil, _, _, rfl⟩
    · rw [if_neg hutil, chip.call_bind]
      generalize hs₂ : s₁.called .utilCreate (chip.reply 1) = s₂
      have htwo : s₂.calls.length = 2 := by rw [← hs₂, Host.length_called, hone]
      rw [chip.next_eq s₂ 2 htwo]
      by_cases hcrypt : (chip.reply 2).null = true
      · rw [if_pos hcrypt]
        exact Or.inr ⟨fun h => by simp [h.crypt] at hcrypt, _, _, rfl⟩
      · rw [if_neg hcrypt]
        generalize hs₃ : s₂.called .cryptCreate (chip.reply 2) = s₃
        have hthree : s₃.calls.length = 3 := by rw [← hs₃, Host.length_called, htwo]
        have hnext := chip.next_eq s₃ 3 hthree
        cases hresult : (chip.next s₃).completion.result with
        | ok u =>
          rw [bind_of_ok (attempt_of_ok (chip.run_of_ok hresult))]
          refine Or.inl ⟨⟨hnul, by simpa using hutil, by simpa using hcrypt, ?_⟩, _, rfl, ?_⟩
          · rw [hnext] at hresult
            exact hresult
          · rw [Host.length_ran, hthree]
        | error e =>
          rw [bind_of_ok (attempt_of_err (chip.run_of_error hresult))]
          refine Or.inr ⟨?_, _, _, rfl⟩
          intro h
          rw [hnext] at hresult
          cases hresult.symm.trans h.application

theorem Chip.open_cases (bus : List UInt8) (addr : UInt8) :
    (Opens chip bus ∧ ∃ t, chip.open bus addr .start = (.ok (), t) ∧ t.calls.length = 4) ∨
    ¬ Opens chip bus ∧ ∃ e t, chip.open bus addr .start = (.err e, t) := by
  have hcases := chip.openInner_cases bus addr (s := { Host.start with OPEN := true }) rfl
  rcases hcases with ⟨hopens, t, hinner, hlen⟩ | ⟨hopens, e, t, hinner⟩
  · refine Or.inl ⟨hopens, t, ?_, hlen⟩
    change (attempt (chip.openInner bus addr) >>= _) { Host.start with OPEN := true } = _
    rw [bind_of_ok (attempt_of_ok hinner)]
    rfl
  · refine Or.inr ⟨hopens, e, { t with OPEN := false }, ?_⟩
    change (attempt (chip.openInner bus addr) >>= _) { Host.start with OPEN := true } = _
    rw [bind_of_ok (attempt_of_err hinner)]
    rfl

end Handle

end Trustm
