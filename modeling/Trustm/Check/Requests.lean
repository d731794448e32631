import Trustm.Check.Report
import Trustm.Support.Footprint
import Trustm.Usage.Client

/-!
# What the checks ask for

The requests of each check of `trustm-check` to its handle, whatever the answers are.

* `Requests`: a part of `main` asks for a word of a language. A check stops at its first error, so
  its language has a word for each of its ends.
* `checkLanguage`: the words between `open` and the verifications. Which one it is depends on the
  answers only where the first draw fails; no other failed check changes it.
* `Housekeeps`: the calls for the handle itself, in `open`, `close` and `Drop`.
-/

namespace Trustm

open Run Outcome Effect

/-! ## Requests -/

/-- The host behind a request. -/
def Chip.behind (chip : Chip) (s : Host) : Request → Host
  | .open bus addr => (chip.open bus addr s).2
  | .call m => (m.perform chip s).2
  | .close => (chip.close s).2
  | .drop => (chip.drop s).2

/-! ## Checks -/

/-- `x` asks its host for the requests of a word of `L`. -/
abbrev Requests {ε α : Type} (chip : Chip) (x : Effect CheckState ε α) (L : Language Request) :
    Prop :=
  Performs CheckState.host chip.behind x L

def draw : Method := .random .trng 32

def verifyCalls (derKey sig : List UInt8) : List Method :=
  [.ecdsaVerify .nistP256 derKey digest sig, .ecdsaVerify .nistP256 derKey tampered sig]

section Checks

variable {chip : Chip} {ε α : Type} {f : Effect CheckState Error String} {L : Language Request}

theorem requests_device {x : Effect Host Error α} {r : Request}
    (h : ∀ s, (x s).2 = chip.behind s r) : Requests chip (device x) {[r]} :=
  performs_singleton fun m => h m.host

/-- A method, by its entry in the list of all. -/
theorem requests_method {x : Effect Host Error α} {m : Method} {results : α → List (List UInt8)}
    (h : m.perform chip = listing results x) : Requests chip (device x) {[.call m]} := by
  apply requests_device
  intro s
  change (x s).2 = (m.perform chip s).2
  rw [h, state_listing]

theorem Requests.check (h : Requests chip f L) (name : String) :
    Requests chip (Report.check name f) L := by
  refine Performs.bind_one h.attempt fun r => performs_one fun m => ?_
  cases r <;> rfl

theorem Tame.settles (hf : Tame f) (name : String) : Settles (Report.check name f) := by
  intro m
  obtain ⟨r, t, hr, _⟩ := hf m
  cases r with
  | ok info => exact ⟨(), _, check_of_ok hr⟩
  | error e => exact ⟨(), _, check_of_err hr⟩

theorem readCheck_requests (oid : UInt16) (view : List UInt8 → Outcome Error String) :
    Requests chip (readCheck chip oid view) {[.call (.readData oid 0)]} :=
  Performs.bind_one (requests_method rfl) fun _ => performs_lift _

theorem metadataCheck_requests (oid : UInt16) :
    Requests chip (metadataCheck chip oid) {[.call (.readMetadata oid)]} :=
  Performs.bind_one (requests_method rfl) fun _ => performs_lift _

theorem certificateCheck_requests :
    Requests chip (certificateCheck chip) {[.call (.readData 0xE0E0 0)]} := by
  refine Performs.bind_one (requests_method rfl) fun raw => ?_
  refine Performs.bind_one (performs_lift _) fun der => ?_
  refine Performs.bind_one (performs_lift _) fun _ => ?_
  refine Performs.bind_one (performs_lift _) fun found => ?_
  refine Performs.bind_one (performs_lift _) fun point => ?_
  exact performs_one fun _ => rfl

/-- The second draw is not asked for behind a failed one. -/
theorem randomCheck_requests :
    Requests chip (randomCheck chip) ({[.call draw]} * {[.call draw]} + {[.call draw]}) := by
  refine Performs.bind (requests_method rfl) fun a => ?_
  refine Performs.bind_one (requests_method rfl) fun b => ?_
  refine Performs.bind_one (performs_lift _) fun _ => ?_
  refine Performs.bind_one (performs_lift _) fun _ => ?_
  exact Performs.bind_one (performs_lift _) fun _ => performs_pure _

theorem hashCheck_requests :
    Requests chip (hashCheck chip) {[.call (.hashSha256 abc)]} :=
  Performs.bind_one (requests_method rfl) fun _ => performs_lift _

theorem signCheck_requests :
    Requests chip (signCheck chip) {[.call (.ecdsaSign .E0F0 digest)]} := by
  refine Performs.bind_one (requests_method rfl) fun s => ?_
  refine Performs.bind_one (performs_lift _) fun rs => ?_
  exact Performs.bind_one (performs_lift _) fun _ => performs_one fun _ => rfl

theorem verifyCheck_requests (derKey sig : List UInt8) :
    Requests chip (verifyCheck chip derKey sig)
      {[.call (.ecdsaVerify .nistP256 derKey digest sig)]} :=
  Performs.bind_one (requests_method rfl) fun _ => performs_pure _

theorem tamperedCheck_requests (derKey sig : List UInt8) :
    Requests chip (tamperedCheck chip derKey sig)
      {[.call (.ecdsaVerify .nistP256 derKey tampered sig)]} := by
  refine Performs.bind_one (Performs.attempt (requests_method rfl)) fun r => ?_
  cases r with
  | ok u => exact performs_lift _
  | error e => exact performs_pure _

end Checks

/-! ## Words -/

/-- The data objects read in front of the certificate. -/
def stateObjects : List UInt16 := [0xE0C2, 0xE0C0, 0xE0C1, 0xE0C5, 0xE0C6, 0xE120]

/-- The requests between `open` and the verifications. -/
def checkLanguage : Language Request :=
  (stateObjects.map fun oid => {[.call (.readData oid 0)]}).prod *
    (metadataObjects.map fun o => {[.call (.readMetadata o.1)]}).prod *
    {[.call (.readData 0xE0E0 0)]} *
    ({[.call draw]} * {[.call draw]} + {[.call draw]}) *
    {[.call (.hashSha256 abc)]} *
    {[.call (.ecdsaSign .E0F0 digest)]}

section Words

variable {chip : Chip}

theorem metadataChecks_requests : Requests chip
    (metadataObjects.forM fun o =>
      Report.check ("read metadata of " ++ o.2) (metadataCheck chip o.1))
    (metadataObjects.map fun o => {[.call (.readMetadata o.1)]}).prod := by
  apply Performs.forM
  intro o _
  exact ⟨(metadataCheck_requests o.1).check _, (metadataCheck_plain o.1).tame.settles _⟩

theorem closeChecks_requests : Requests chip (closeChecks chip) {[.close]} := by
  refine Performs.bind_one (Performs.attempt (requests_device fun s => rfl)) fun r => ?_
  have hfinish : Requests chip Report.finish 1 :=
    Performs.bind_one (performs_one fun _ => rfl) fun m => by
      split
      · exact performs_lift _
      · exact performs_pure _
  cases r with
  | ok u => exact Performs.bind_one (performs_one fun _ => rfl) fun _ => hfinish
  | error e => exact Performs.bind_one (performs_one fun _ => rfl) fun _ => hfinish

end Words

/-! ## Calls for the handle -/

/-- A call that makes, opens, closes or destroys something of the handle. -/
def LibCall.housekeeping : LibCall → Bool
  | .command c => c.application
  | _ => true

section Keeps

variable (chip : Chip)

/-- The log behind one more call. -/
def Chip.answered (log : List (LibCall × Reply)) (c : LibCall) : List (LibCall × Reply) :=
  log ++ [(c, chip.reply log.length)]

/-- `x` makes no calls but those for the handle. -/
abbrev Housekeeps {α : Type} (x : Effect Host Error α) : Prop :=
  Performs Host.calls chip.answered x (Language.wordsOf fun c => c.housekeeping = true)

variable {chip} {α : Type}

theorem housekeeps_call {c : LibCall} (hc : c.housekeeping = true) :
    Housekeeps chip (chip.call c) :=
  (performs_singleton fun _ => rfl).mono (Language.singleton_le_wordsOf (by simpa using hc))

/-- Everything between the calls. -/
theorem housekeeps_of_eq {x : Effect Host Error α} (h : ∀ s, (x s).2.calls = s.calls) :
    Housekeeps chip x :=
  performs_wordsOf_of_eq h

theorem housekeeps_run {c : LibCommand} (hc : c.application = true) :
    Housekeeps chip (chip.run c) := by
  refine Performs.bind_wordsOf (housekeeps_of_eq fun _ => rfl) fun _ => ?_
  refine Performs.bind_wordsOf (housekeeps_call hc) fun reply => ?_
  refine Performs.bind_wordsOf (housekeeps_of_eq fun _ => rfl) fun _ => ?_
  exact Performs.bind_wordsOf (housekeeps_of_eq fun _ => rfl) fun _ => housekeeps_of_eq fun _ => rfl

theorem housekeeps_drop : Housekeeps chip chip.drop := by
  refine Performs.bind_wordsOf (housekeeps_call rfl) fun _ => ?_
  exact Performs.bind_wordsOf (housekeeps_call rfl) fun _ => housekeeps_of_eq fun _ => rfl

theorem housekeeps_close : Housekeeps chip chip.close := by
  refine Performs.bind_wordsOf (Performs.attempt (housekeeps_run rfl)) fun r => ?_
  refine Performs.bind_wordsOf housekeeps_drop fun _ => ?_
  exact Performs.bind_wordsOf (housekeeps_of_eq fun _ => rfl) fun _ => housekeeps_of_eq fun _ => rfl

theorem housekeeps_openInner (bus : List UInt8) (addr : UInt8) :
    Housekeeps chip (chip.openInner bus addr) := by
  unfold Chip.openInner
  split
  · exact housekeeps_of_eq fun _ => rfl
  · refine Performs.bind_wordsOf (housekeeps_call rfl) fun _ => ?_
    refine Performs.bind_wordsOf (housekeeps_call rfl) fun util => ?_
    split
    · exact housekeeps_of_eq fun _ => rfl
    · refine Performs.bind_wordsOf (housekeeps_call rfl) fun crypt => ?_
      split
      · exact Performs.bind_wordsOf (housekeeps_call rfl) fun _ => housekeeps_of_eq fun _ => rfl
      · refine Performs.bind_wordsOf (Performs.attempt (housekeeps_run rfl)) fun r => ?_
        cases r with
        | ok reply => exact housekeeps_of_eq fun _ => rfl
        | error e =>
          exact Performs.bind_wordsOf housekeeps_drop fun _ => housekeeps_of_eq fun _ => rfl

theorem housekeeps_open (bus : List UInt8) (addr : UInt8) :
    Housekeeps chip (chip.open bus addr) := by
  unfold Chip.open
  refine Performs.bind_wordsOf (housekeeps_of_eq fun _ => rfl) fun before => ?_
  refine Performs.bind_wordsOf (housekeeps_of_eq fun _ => rfl) fun _ => ?_
  split
  · exact housekeeps_of_eq fun _ => rfl
  · refine Performs.bind_wordsOf (Performs.attempt (housekeeps_openInner bus addr)) fun r => ?_
    cases r with
    | ok u => exact housekeeps_of_eq fun _ => rfl
    | error e =>
      exact Performs.bind_wordsOf (housekeeps_of_eq fun _ => rfl) fun _ =>
        housekeeps_of_eq fun _ => rfl

end Keeps

end Trustm
