import Trustm.Check.Lines
import Trustm.Messages
import Trustm.Support.Ends

/-!
# Texts on one line

What `trustm-check` prints behind the name of a check comes from many places: the bytes of the
chip in digits, counts, the texts of errors and the names of status words. None of them breaks the
line.

* `OneLine`: a text without a newline. `Speaks` says it of the text and the error of a check.
* `Adds P`: a part of `main` that only adds lines, all of them with `P`.
* `Line.Proper`: what holds of the line of every check; `mainBus_adds` is a whole run.
-/

namespace Trustm

open Outcome Effect

/-! ## Texts -/

def OneLine (s : String) : Prop := '\n' ∉ s.toList

theorem oneLine_ofList {l : List Char} (h : '\n' ∉ l) : OneLine (String.ofList l) := by
  rw [OneLine, String.toList_ofList]
  exact h

theorem OneLine.append {s t : String} (hs : OneLine s) (ht : OneLine t) : OneLine (s ++ t) := by
  rw [OneLine, String.toList_append, List.mem_append]
  exact fun h => h.elim hs ht

theorem digitChar_ne_newline {i : Nat} (hi : i < 16) : Nat.digitChar i ≠ '\n' := by
  have hall : ∀ i < 16, Nat.digitChar i ≠ '\n' := by decide
  exact hall i hi

theorem toList_hex_cons (x : UInt8) (b : List UInt8) :
    (hex (x :: b)).toList =
      Nat.digitChar (x.toNat / 16) :: Nat.digitChar (x.toNat % 16) :: (hex b).toList := by
  show (String.join (hexByte x :: b.map hexByte)).toList = _
  rw [String.join_cons, String.toList_append, hexByte, String.toList_ofList]
  rfl

theorem oneLine_hex (b : List UInt8) : OneLine (hex b) := by
  induction b with
  | nil => exact oneLine_ofList List.not_mem_nil
  | cons x b ih =>
    have hx := x.toNat_lt
    rw [OneLine, toList_hex_cons, List.mem_cons, List.mem_cons]
    intro h
    rcases h with hhigh | hlow | hrest
    · exact digitChar_ne_newline (by omega) hhigh.symm
    · exact digitChar_ne_newline (by omega) hlow.symm
    · exact ih hrest

/-- A decimal number has digits only. -/
theorem isDigit_of_mem_toString {n : Nat} {c : Char} (h : c ∈ (toString n).toList) :
    c.isDigit = true := by
  rw [Nat.toString_eq_ofList_toDigits, String.toList_ofList] at h
  exact Nat.isDigit_of_mem_toDigits (by decide) (by decide) h

theorem oneLine_toString (n : Nat) : OneLine (toString n) := by
  intro h
  cases isDigit_of_mem_toString h

theorem oneLine_lifecycleName (v : List UInt8) : OneLine (lifecycleName v) := by
  unfold lifecycleName
  split <;> exact oneLine_ofList (by decide)

/-! ## Texts of errors -/

theorem deviceErrors_oneLine : ∀ p ∈ deviceErrors, OneLine p.2 := by
  simp only [deviceErrors, List.forall_mem_cons, List.not_mem_nil, false_imp_iff,
    implies_true, and_true]
  and_intros
  all_goals exact oneLine_ofList (by decide)

theorem hostErrors_oneLine : ∀ p ∈ hostErrors, OneLine p.2 := by
  simp only [hostErrors, List.forall_mem_cons, List.not_mem_nil, false_imp_iff,
    implies_true, and_true]
  and_intros
  all_goals exact oneLine_ofList (by decide)

theorem oneLine_statusName {code : UInt16} {name : String}
    (h : Error.statusName code = some name) : OneLine name := by
  by_cases hdevice : FromDevice code
  · rw [statusName_device hdevice] at h
    exact deviceErrors_oneLine _ (mem_of_lookup h)
  · rw [statusName_host hdevice] at h
    exact hostErrors_oneLine _ (mem_of_lookup h)

theorem upperHex_oneLine (code : UInt16) : OneLine (String.ofList (upperHex code)) := by
  have hcode := code.toNat_lt
  have hall : ∀ i < 16, upperDigit i ≠ '\n' := by decide
  apply oneLine_ofList
  simp only [upperHex, List.mem_cons, List.not_mem_nil, or_false, not_or]
  exact ⟨(hall _ (by omega)).symm, (hall _ (by omega)).symm, (hall _ (by omega)).symm,
    (hall _ (by omega)).symm⟩

theorem oneLine_status (code : UInt16) : OneLine (Error.status code).display := by
  have hfront : OneLine ("OPTIGA error 0x" ++ String.ofList (upperHex code)) :=
    OneLine.append (oneLine_ofList (by decide)) (upperHex_oneLine code)
  apply hfront.append
  cases hname : Error.statusName code with
  | none => exact oneLine_ofList (by decide)
  | some name =>
    apply OneLine.append _ (oneLine_ofList (by decide))
    exact OneLine.append (oneLine_ofList (by decide)) (oneLine_statusName hname)

/-- An error whose text does not break the line. -/
def Error.OneLine (e : Error) : Prop := Trustm.OneLine e.display

theorem oneLine_badData {what : String} (h : OneLine what) : (Error.badData what).OneLine :=
  OneLine.append (oneLine_ofList (by decide)) h

theorem oneLine_invalidArgument {what : String} (h : OneLine what) :
    (Error.invalidArgument what).OneLine :=
  OneLine.append (oneLine_ofList (by decide)) h

theorem oneLine_timeout : Error.timeout.OneLine := oneLine_ofList (by decide)

theorem oneLine_noInstance : Error.noInstance.OneLine := oneLine_ofList (by decide)

theorem oneLine_alreadyOpen : Error.alreadyOpen.OneLine := oneLine_ofList (by decide)

/-! ## Checks -/

/-- The text or the error behind the name of a check. -/
abbrev Speaks (f : Effect CheckState Error String) : Prop := f.Ends OneLine Error.OneLine

section Speaks

variable {α σ : Type} {chip : Chip}

/-- An error of the library or a timeout. -/
theorem Completion.oneLine_error {c : Completion} {e : Error} (h : c.result = .error e) :
    e.OneLine := by
  rcases Completion.error_cases h with ⟨code, rfl⟩ | rfl
  · exact oneLine_status code
  · exact oneLine_timeout

theorem run_ends (c : LibCommand) : (chip.run c).Ends (fun _ => True) Error.OneLine := by
  intro s
  cases hresult : (chip.next s).completion.result with
  | ok u =>
    rw [chip.run_of_ok hresult]
    exact ends_ok trivial
  | error e =>
    rw [chip.run_of_error hresult]
    exact ends_err (Completion.oneLine_error hresult)

theorem device_ends {P : α → Prop} {x : Effect Host Error α} (h : x.Ends P Error.OneLine) :
    (device x).Ends P Error.OneLine :=
  h.on _ _

/-- A command, and a look at its answer. -/
theorem Asks.ends {x : Effect Host Error α} {c : LibCommand} {g : Reply → α}
    (hx : Asks chip x c g) : (device x).Ends (fun _ => True) Error.OneLine := by
  apply device_ends
  intro s
  cases hresult : (chip.next s).completion.result with
  | ok u =>
    rw [hx.ok s hresult]
    exact ends_ok trivial
  | error e =>
    rw [hx.error s e hresult]
    exact ends_err (Completion.oneLine_error hresult)

theorem tryFrom_ends {size n : Nat} {ofNat : Nat → α} {what : String} (h : OneLine what) :
    (tryFrom size ofNat n what).Ends (fun _ => True) Error.OneLine :=
  ends_lift (ends_ite (fun _ => ends_ok trivial) fun _ => ends_err (oneLine_invalidArgument h))

theorem expect_ends {c : Prop} [Decidable c] {msg : String} (h : OneLine msg) :
    (expect c msg).Ends (fun _ => True) Error.OneLine :=
  ends_ite (fun _ => ends_ok trivial) fun _ => ends_err (oneLine_badData h)

theorem okOr_ends {x : Option α} {e : Error} (h : e.OneLine) :
    (okOr x e).Ends (fun _ => True) Error.OneLine := by
  cases x with
  | some a => exact ends_ok trivial
  | none => exact ends_err h

/-! ### Decoders -/

theorem derUintInto_ends (buf out : List UInt8) :
    (derUintInto buf out).Ends (fun _ => True) Error.OneLine := by
  have hreject {what : String} (h : OneLine what) :
      (.err (.badData what) : Outcome Error (Nat × List UInt8)).Ends (fun _ => True)
        Error.OneLine := ends_err (oneLine_badData h)
  unfold derUintInto
  refine ends_ite (fun _ => hreject (oneLine_ofList (by decide))) fun _ => ?_
  refine Outcome.Ends.bind (ends_index buf 0) fun tag _ => ?_
  refine ends_ite (fun _ => hreject (oneLine_ofList (by decide))) fun _ => ?_
  refine Outcome.Ends.bind (ends_index buf 1) fun len _ => ?_
  refine ends_ite (fun _ => hreject (oneLine_ofList (by decide))) fun _ => ?_
  refine Outcome.Ends.bind (ends_slice buf 2 _) fun v _ => ?_
  refine ends_ite (fun _ => hreject (oneLine_ofList (by decide))) fun _ => ?_
  refine Outcome.Ends.bind (ends_sub _ _) fun start _ => ?_
  refine Outcome.Ends.bind (ends_sliceFrom _ _) fun dst _ => ?_
  refine Outcome.Ends.bind (ends_copyFromSlice _ _) fun tail _ => ?_
  exact ends_ok trivial

theorem ecdsaSignatureToRs_ends (sig : List UInt8) (componentLen : Nat) :
    (ecdsaSignatureToRs sig componentLen).Ends (fun _ => True) Error.OneLine := by
  unfold ecdsaSignatureToRs
  refine Outcome.Ends.bind (ends_vec 0 _) fun out _ => ?_
  refine Outcome.Ends.bind (ends_sliceTo out _) fun front _ => ?_
  refine Outcome.Ends.bind (derUintInto_ends sig front) fun r _ => ?_
  refine Outcome.Ends.bind (ends_sliceFrom sig _) fun rest _ => ?_
  refine Outcome.Ends.bind (ends_sliceFrom _ _) fun back _ => ?_
  refine Outcome.Ends.bind (derUintInto_ends rest back) fun s _ => ?_
  exact ends_ite (fun _ => ends_err (oneLine_badData (oneLine_ofList (by decide)))) fun _ =>
    ends_ok trivial

theorem stripCertHeader_ends (raw : List UInt8) :
    (stripCertHeader raw).Ends (fun _ => True) Error.OneLine :=
  ends_ite (fun _ => ends_ok trivial) fun _ => ends_ite (fun _ => ends_sliceFrom raw 9) fun _ =>
    ends_err (oneLine_badData (oneLine_ofList (by decide)))

theorem findP256Spki_ends (der : List UInt8) :
    (findP256Spki der).Ends (fun _ => True) Error.OneLine := by
  unfold findP256Spki
  split
  · exact ends_ok trivial
  · refine Outcome.Ends.bind (ends_sliceFrom der _) fun rest _ => ?_
    refine ends_ite (fun _ => ends_ok trivial) fun _ => ?_
    refine Outcome.Ends.bind (ends_sliceTo rest 4) fun front _ => ?_
    refine ends_ite (fun _ => ends_ok trivial) fun _ => ?_
    exact Outcome.Ends.bind (ends_slice rest 3 _) fun point _ => ends_ok trivial

/-! ### What the checks say -/

theorem uidView_ends (v : List UInt8) : (uidView v).Ends OneLine Error.OneLine :=
  Outcome.Ends.bind (expect_ends (oneLine_ofList (by decide))) fun _ _ => ends_ok (oneLine_hex v)

theorem lifecycleView_ends (v : List UInt8) : (lifecycleView v).Ends OneLine Error.OneLine := by
  apply ends_ok
  apply OneLine.append _ (oneLine_ofList (by decide))
  apply OneLine.append _ (oneLine_lifecycleName v)
  exact (oneLine_hex v).append (oneLine_ofList (by decide))

theorem hexView_ends (v : List UInt8) : (hexView v).Ends OneLine Error.OneLine :=
  ends_ok (oneLine_hex v)

theorem commBufferView_ends (v : List UInt8) : (commBufferView v).Ends OneLine Error.OneLine := by
  unfold commBufferView
  refine Outcome.Ends.bind (expect_ends (oneLine_ofList (by decide))) fun _ _ => ?_
  refine Outcome.Ends.bind (ends_index v 0) fun high _ => ?_
  refine Outcome.Ends.bind (ends_index v 1) fun low _ => ?_
  exact ends_ok ((oneLine_toString _).append (oneLine_ofList (by decide)))

theorem readCheck_speaks (oid : UInt16) {view : List UInt8 → Outcome Error String}
    (hview : ∀ v, (view v).Ends OneLine Error.OneLine) : Speaks (readCheck chip oid view) :=
  Effect.Ends.bind (readData_asks oid).ends fun v _ => ends_lift (hview v)

theorem metadataCheck_speaks (oid : UInt16) : Speaks (metadataCheck chip oid) :=
  Effect.Ends.bind (readMetadata_asks oid).ends fun v _ => ends_lift (hexView_ends v)

theorem certificateCheck_speaks : Speaks (certificateCheck chip) := by
  unfold certificateCheck
  refine Effect.Ends.bind (readData_asks 0xE0E0).ends fun raw _ => ?_
  refine Effect.Ends.bind (ends_lift (stripCertHeader_ends raw)) fun der _ => ?_
  refine Effect.Ends.bind (ends_lift (expect_ends (oneLine_ofList (by decide)))) fun _ _ => ?_
  refine Effect.Ends.bind (ends_lift (findP256Spki_ends der)) fun found _ => ?_
  refine Effect.Ends.bind
    (ends_lift (okOr_ends (oneLine_badData (oneLine_ofList (by decide))))) fun point _ => ?_
  refine Effect.Ends.bind (ends_modify _) fun _ _ => ?_
  exact ends_pure ((oneLine_toString _).append (oneLine_ofList (by decide)))

theorem randomCheck_speaks : Speaks (randomCheck chip) := by
  unfold randomCheck
  refine Effect.Ends.bind random_asks.ends fun a _ => ?_
  refine Effect.Ends.bind random_asks.ends fun b _ => ?_
  refine Effect.Ends.bind (ends_lift (expect_ends (oneLine_ofList (by decide)))) fun _ _ => ?_
  refine Effect.Ends.bind (ends_lift (expect_ends (oneLine_ofList (by decide)))) fun _ _ => ?_
  refine Effect.Ends.bind (ends_lift (ends_sliceTo a 8)) fun first _ => ?_
  exact ends_pure ((oneLine_hex first).append (oneLine_ofList (by decide)))

theorem hashCheck_speaks : Speaks (hashCheck chip) :=
  Effect.Ends.bind hashSha256_asks.ends fun _ _ => ends_lift
    (Outcome.Ends.bind (expect_ends (oneLine_ofList (by decide))) fun _ _ =>
      ends_ok (oneLine_ofList (by decide)))

theorem signCheck_speaks : Speaks (signCheck chip) := by
  unfold signCheck
  refine Effect.Ends.bind ecdsaSign_asks.ends fun s _ => ?_
  refine Effect.Ends.bind (ends_lift (ecdsaSignatureToRs_ends s 32)) fun rs _ => ?_
  refine Effect.Ends.bind (ends_lift (expect_ends (oneLine_ofList (by decide)))) fun _ _ => ?_
  refine Effect.Ends.bind (ends_modify _) fun _ _ => ?_
  exact ends_pure ((oneLine_toString _).append (oneLine_ofList (by decide)))

theorem ecdsaVerify_ends (curve : EccCurve) (publicKey digest signature : List UInt8) :
    (chip.ecdsaVerify curve publicKey digest signature).Ends (fun _ => True) Error.OneLine := by
  unfold Chip.ecdsaVerify
  refine Effect.Ends.bind (tryFrom_ends (oneLine_ofList (by decide))) fun _ _ => ?_
  refine Effect.Ends.bind (tryFrom_ends (oneLine_ofList (by decide))) fun _ _ => ?_
  refine Effect.Ends.bind (tryFrom_ends (oneLine_ofList (by decide))) fun _ _ => ?_
  exact Effect.Ends.bind (run_ends _) fun _ _ => ends_pure trivial

theorem verifyCheck_speaks (derKey sig : List UInt8) : Speaks (verifyCheck chip derKey sig) :=
  Effect.Ends.bind (device_ends (ecdsaVerify_ends _ _ _ _)) fun _ _ =>
    ends_pure (oneLine_ofList (by decide))

theorem tamperedCheck_speaks (derKey sig : List UInt8) :
    Speaks (tamperedCheck chip derKey sig) := by
  refine Effect.Ends.bind (device_ends (ecdsaVerify_ends _ _ _ _)).attempt fun r _ => ?_
  cases r with
  | ok u => exact ends_lift (ends_err (oneLine_badData (oneLine_ofList (by decide))))
  | error e => exact ends_pure (oneLine_ofList (by decide))

theorem openInner_ends (bus : List UInt8) (addr : UInt8) :
    (chip.openInner bus addr).Ends (fun _ => True) Error.OneLine := by
  have hcall (c : LibCall) : (chip.call c).Ends (fun _ => True) Error.OneLine :=
    fun _ => ends_ok trivial
  have hdrop : chip.drop.Ends (fun _ => True) Error.OneLine := fun _ => ends_ok trivial
  unfold Chip.openInner
  split
  · exact ends_lift (ends_err (oneLine_invalidArgument (oneLine_ofList (by decide))))
  · refine Effect.Ends.bind (hcall _) fun _ _ => ?_
    refine Effect.Ends.bind (hcall _) fun util _ => ?_
    split
    · exact ends_lift (ends_err oneLine_noInstance)
    · refine Effect.Ends.bind (hcall _) fun crypt _ => ?_
      split
      · exact Effect.Ends.bind (hcall _) fun _ _ => ends_lift (ends_err oneLine_noInstance)
      · refine Effect.Ends.bind (run_ends _).attempt fun r hr => ?_
        cases r with
        | ok reply => exact ends_pure trivial
        | error e => exact Effect.Ends.bind hdrop fun _ _ => ends_lift (ends_err (hr.error e rfl))

theorem open_ends (bus : List UInt8) (addr : UInt8) :
    (chip.open bus addr).Ends (fun _ => True) Error.OneLine := by
  unfold Chip.open
  refine Effect.Ends.bind (P := fun _ => True) (fun _ => ends_ok trivial) fun before _ => ?_
  refine Effect.Ends.bind (ends_modify _) fun _ _ => ?_
  split
  · exact ends_lift (ends_err oneLine_alreadyOpen)
  · refine Effect.Ends.bind (openInner_ends bus addr).attempt fun r hr => ?_
    cases r with
    | ok u => exact ends_pure trivial
    | error e =>
      exact Effect.Ends.bind (ends_modify _) fun _ _ => ends_lift (ends_err (hr.error e rfl))

theorem close_ends : chip.close.Ends (fun _ => True) Error.OneLine := by
  have hdrop : chip.drop.Ends (fun _ => True) Error.OneLine := fun _ => ends_ok trivial
  unfold Chip.close
  refine Effect.Ends.bind (run_ends _).attempt fun r hr => ?_
  refine Effect.Ends.bind hdrop fun _ _ => ?_
  exact Effect.Ends.bind (ends_lift (hr.mono fun _ _ => trivial)) fun _ _ => ends_pure trivial

end Speaks

/-! ## Lines -/

/-- `x` adds lines with `P`, and takes none away. -/
abbrev Adds (P : Line → Prop) {ε α : Type} (x : Effect CheckState ε α) : Prop :=
  Performs CheckState.lines (fun ls l => ls ++ [l]) x (Language.wordsOf P)

/-- The checks of `open` and `close`: `Report::ok` prints no text behind the time. -/
def textless : List String := ["open application", "close application"]

/-- The text of a line stays on it, and is there exactly if the line has room for one. -/
def Line.Proper : Line → Prop
  | .ok name info => OneLine info ∧ (name ∈ textless → info = "")
  | .fail _ e => e.OneLine
  | .skip _ => True

section Adds

variable {ε α : Type} {chip : Chip} {P : Line → Prop} {f : Effect CheckState Error String}

theorem adds_of_eq {x : Effect CheckState ε α} (h : ∀ m, (x m).2.lines = m.lines) : Adds P x :=
  performs_wordsOf_of_eq h

theorem adds_line {x : Effect CheckState ε Unit} {l : Line} (hl : P l)
    (h : ∀ m, (x m).2.lines = m.lines ++ [l]) : Adds P x := by
  have hone : Performs CheckState.lines (fun ls l => ls ++ [l]) x {[l]} := performs_singleton h
  apply hone.mono
  apply Language.singleton_le_wordsOf
  intro k hk
  rw [List.mem_singleton.mp hk]
  exact hl

/-- The line of a check that speaks. -/
theorem Tame.adds (hf : Tame f) (hspeaks : Speaks f) {name : String} (hname : name ∉ textless) :
    Adds Line.Proper (Report.check name f) := by
  intro m
  have hends := hspeaks m
  obtain ⟨r, t, hr, _, hlines⟩ := hf m
  rw [hr] at hends
  cases r with
  | ok info =>
    rw [check_of_ok hr, ← hlines]
    refine ⟨[.ok name info], ?_, rfl⟩
    intro l hl
    rw [List.mem_singleton.mp hl]
    exact ⟨hends.value info rfl, fun hmem => absurd hmem hname⟩
  | error e =>
    rw [check_of_err hr, ← hlines]
    refine ⟨[.fail name e], ?_, rfl⟩
    intro l hl
    rw [List.mem_singleton.mp hl]
    exact hends.error e rfl

theorem adds_skip (name : String) : Adds Line.Proper (Report.skip name) :=
  adds_line (l := .skip name) trivial fun _ => rfl

theorem verifyChecks_adds : Adds Line.Proper (verifyChecks chip) := by
  refine Performs.bind_wordsOf (adds_of_eq fun _ => rfl) fun m => ?_
  have hskips (first second : String) :
      Adds Line.Proper (Report.skip first >>= fun _ => Report.skip second) :=
    Performs.bind_wordsOf (adds_skip first) fun _ => adds_skip second
  cases m.signature with
  | none => exact hskips _ _
  | some sig =>
    cases m.factoryPub with
    | none => exact hskips _ _
    | some point =>
      refine Performs.bind_wordsOf ?_ fun _ => ?_
      · exact (verifyCheck_tame _ _).adds (verifyCheck_speaks _ _) (by decide)
      · exact (tamperedCheck_tame _ _).adds (tamperedCheck_speaks _ _) (by decide)

theorem adds_ok (name : String) : Adds Line.Proper (Report.ok name "") :=
  adds_line (l := .ok name "") ⟨oneLine_ofList (by decide), fun _ => rfl⟩ fun _ => rfl

theorem adds_fail (name : String) {e : Error} (he : e.OneLine) :
    Adds Line.Proper (Report.fail name e) :=
  adds_line (l := .fail name e) he fun _ => rfl

theorem finish_adds : Adds P Report.finish := adds_of_eq fun m => by rw [finish_apply]

theorem closeChecks_adds : Adds Line.Proper (closeChecks chip) := by
  refine (device_ends close_ends).performs_attempt (adds_of_eq fun _ => rfl) fun r hr => ?_
  cases r with
  | ok u => exact Performs.bind_wordsOf (adds_ok _) fun _ => finish_adds
  | error e =>
    exact Performs.bind_wordsOf (adds_fail _ (hr.error e rfl)) fun _ => finish_adds

/-- What follows the ten checks that only show an object. -/
theorem tailChecks_adds : Adds Line.Proper (do
    Report.check "read factory certificate (0xE0E0)" (certificateCheck chip)
    Report.check "random 32 bytes (TRNG)" (randomCheck chip)
    Report.check "SHA-256 known answer" (hashCheck chip)
    Report.check "ECDSA sign with factory key 0xE0F0" (signCheck chip)
    verifyChecks chip
    closeChecks chip) := by
  refine Performs.bind_wordsOf ?_ fun _ => ?_
  · exact certificateCheck_probe.tame.adds certificateCheck_speaks (by decide)
  refine Performs.bind_wordsOf ?_ fun _ => ?_
  · exact randomCheck_plain.tame.adds randomCheck_speaks (by decide)
  refine Performs.bind_wordsOf ?_ fun _ => ?_
  · exact hashCheck_plain.tame.adds hashCheck_speaks (by decide)
  refine Performs.bind_wordsOf ?_ fun _ => ?_
  · exact signCheck_probe.tame.adds signCheck_speaks (by decide)
  exact Performs.bind_wordsOf verifyChecks_adds fun _ => closeChecks_adds

theorem checks_adds : Adds Line.Proper (checks chip) := by
  have hmetadata : Adds Line.Proper (metadataObjects.forM fun o =>
      Report.check ("read metadata of " ++ o.2) (metadataCheck chip o.1)) := by
    refine Performs.forM_wordsOf fun o ho => ?_
    refine (metadataCheck_plain o.1).tame.adds (metadataCheck_speaks o.1) ?_
    revert o
    decide
  unfold checks
  refine Performs.bind_wordsOf ?_ fun _ => ?_
  · exact (readCheck_uid _).tame.adds (readCheck_speaks _ uidView_ends) (by decide)
  refine Performs.bind_wordsOf ?_ fun _ => ?_
  · exact (readCheck_lifecycle _).tame.adds (readCheck_speaks _ lifecycleView_ends) (by decide)
  refine Performs.bind_wordsOf ?_ fun _ => ?_
  · exact (readCheck_hex _).tame.adds (readCheck_speaks _ hexView_ends) (by decide)
  refine Performs.bind_wordsOf ?_ fun _ => ?_
  · exact (readCheck_hex _).tame.adds (readCheck_speaks _ hexView_ends) (by decide)
  refine Performs.bind_wordsOf ?_ fun _ => ?_
  · exact (readCheck_commBuffer _).tame.adds (readCheck_speaks _ commBufferView_ends) (by decide)
  refine Performs.bind_wordsOf ?_ fun _ => ?_
  · exact (readCheck_hex _).tame.adds (readCheck_speaks _ hexView_ends) (by decide)
  exact Performs.bind_wordsOf hmetadata fun _ => tailChecks_adds

theorem mainBus_adds (bus : List UInt8) : Adds Line.Proper (mainBus chip bus) := by
  refine (device_ends (open_ends bus _)).performs_attempt (adds_of_eq fun _ => rfl) fun r hr => ?_
  cases r with
  | ok u => exact Performs.bind_wordsOf (adds_ok _) fun _ => checks_adds
  | error e =>
    exact Performs.bind_wordsOf (adds_fail _ (hr.error e rfl)) fun _ => finish_adds

end Adds

end Trustm
