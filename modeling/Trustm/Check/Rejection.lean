import Trustm.Check.Verdict

/-!
# Who rejects the tampered digest

The last verify check passes on any error: a status of the chip, a status of the host library,
or a timeout. The run can still close the application and exit with 0.

* `Reply.DeviceError`: a status with the top bit, which comes from the chip.
* `rejectionSound_iff`: a clean exit shows that the chip rejected the digest, unless all else
  went well and the command failed on its way.
-/

namespace Trustm

open Outcome Effect

/-- The command ended with a device error status. -/
def Reply.DeviceError (r : Reply) : Prop :=
  ∃ code : UInt16, r.completion.result = .error (.status code) ∧
    code.toUInt32 &&& OPTIGA_DEVICE_ERROR ≠ 0

/-- The command failed, and not by an answer of the chip. -/
def Reply.TransportError (r : Reply) : Prop :=
  (∃ e, r.completion.result = .error e) ∧ ¬ r.DeviceError

/-- The run ends with a signature, its acceptance for the signed digest and its rejection by the
chip for the other one. -/
def AnsweredByChip (t : CheckState) : Prop :=
  ∃ front point sig sign accept reject close drop₁ drop₂, t.host.calls = front ++
      [(.command ecdsaSignCommand, sign),
        (.command (ecdsaVerifyCommand (hostKey point) digest sig), accept),
        (.command (ecdsaVerifyCommand (hostKey point) tampered sig), reject),
        (.command (.closeApplication 0), close), (.cryptDestroy, drop₁), (.utilDestroy, drop₂)] ∧
    sig = signatureBytes sign ∧ accept.Succeeds ∧ reject.DeviceError

/-- A clean exit on the bus `b` means that the chip answered both verify commands. -/
def RejectionSound (chip : Chip) (b : String) : Prop :=
  exitCode (main chip [b] .start).1 = 0 → AnsweredByChip (main chip [b] .start).2

section Rejection

variable {chip : Chip} {b : String}

/-- A passing run, as far as its last calls tell. -/
theorem exit_zero_iff (hshort : b ≠ "-h") (hlong : b ≠ "--help") :
    (exitCode (main chip [b] .start).1 = 0 ↔ Passing chip (asBytes (busPath b))) ∧
      (Passing chip (asBytes (busPath b)) → EndsVerified chip (main chip [b] .start).2) := by
  rw [main_bus chip hshort hlong]
  rcases mainBus_cases chip (asBytes (busPath b)) with ⟨hfinishes, hiff, hend⟩ |
    ⟨hnot, hfinishes, hpos⟩
  · exact ⟨hfinishes.exitCode_eq_zero_iff.trans hiff, hend⟩
  · exact ⟨hfinishes.exitCode_eq_zero_iff.trans (iff_of_false hpos.ne' hnot),
      fun h => absurd h hnot⟩

theorem answeredByChip_iff (hpassing : Passing chip (asBytes (busPath b)))
    (hend : EndsVerified chip (main chip [b] .start).2) :
    AnsweredByChip (main chip [b] .start).2 ↔ (chip.reply 20).DeviceError := by
  obtain ⟨front, point, sig, _, _, hsig, hcalls⟩ := hend
  constructor
  · rintro ⟨front', point', sig', sign, accept, reject, close, drop₁, drop₂, hcalls', _, _, hdevice⟩
    -- both logs end with the same six calls
    have hlast := (List.append_inj' (hcalls.symm.trans hcalls') rfl).2
    simp only [List.cons.injEq, Prod.mk.injEq] at hlast
    rw [hlast.2.2.1.2]
    exact hdevice
  · intro hdevice
    obtain ⟨point', sig', hhealthy⟩ := hpassing.healthy
    exact ⟨front, point, sig, _, _, _, _, _, _, hcalls, hsig, hhealthy.verify, hdevice⟩

/-- On a passing run only the last verify command matters. -/
theorem rejectionSound_of_passing (hshort : b ≠ "-h") (hlong : b ≠ "--help")
    (hpassing : Passing chip (asBytes (busPath b))) :
    RejectionSound chip b ↔ (chip.reply 20).DeviceError := by
  obtain ⟨hexit, hend⟩ := @exit_zero_iff chip b hshort hlong
  rw [RejectionSound, ← answeredByChip_iff hpassing (hend hpassing)]
  exact ⟨fun h => h (hexit.mpr hpassing), fun h _ => h⟩

/-- **A clean exit shows that the chip rejected the tampered digest, unless everything else went
well and this command failed on its way.** -/
theorem rejectionSound_iff (chip : Chip) (b : String) (hshort : b ≠ "-h")
    (hlong : b ≠ "--help") :
    RejectionSound chip b ↔ ¬ (Opens chip (asBytes (busPath b)) ∧
      (∃ point sig, Healthy chip point sig) ∧ (chip.reply 20).TransportError) := by
  constructor
  · rintro hsound ⟨hopens, hhealthy, herror, hnot⟩
    have hpassing : Passing chip (asBytes (busPath b)) := ⟨hopens, hhealthy, herror⟩
    exact hnot ((rejectionSound_of_passing hshort hlong hpassing).mp hsound)
  · intro hnot hzero
    have hpassing := (exit_zero_iff hshort hlong).1.mp hzero
    refine (rejectionSound_of_passing hshort hlong hpassing).mpr ?_ hzero
    by_contra hdevice
    exact hnot ⟨hpassing.opens, hpassing.healthy, hpassing.rejected, hdevice⟩

end Rejection

/-! ## A lost answer -/

/-- The run does not see the command end. -/
def lostAnswer : Reply := ⟨false, .silent, [], 0⟩

theorem rejectionSound_invalidSignature : RejectionSound (checkedChip invalidSignature) "3" := by
  apply (rejectionSound_iff _ "3" (by decide) (by decide)).mpr
  rintro ⟨_, _, _, hnot⟩
  exact hnot ⟨0x802C, rfl, by decide⟩

/-- All checks pass on bus 3 without an answer to the last verify command. -/
theorem not_rejectionSound_lostAnswer :
    exitCode (main (checkedChip lostAnswer) ["3"] .start).1 = 0 ∧
      ¬ RejectionSound (checkedChip lostAnswer) "3" := by
  have hshort : "3" ≠ "-h" := by decide
  have hlong : "3" ≠ "--help" := by decide
  have hpassing : Passing (checkedChip lostAnswer) (asBytes (busPath "3")) :=
    passing_checkedChip ⟨.timeout, rfl⟩ (by decide)
  refine ⟨(exit_zero_iff hshort hlong).1.mpr hpassing, fun hsound => ?_⟩
  obtain ⟨code, hcode, _⟩ := (rejectionSound_of_passing hshort hlong hpassing).mp hsound
  cases hcode

end Trustm
