import Mathlib.Data.UInt

/-!
# Status words, errors and curves

The part of `types.rs` and of the generated constants that the modelled functions read:
the library status words, the error type with `Error::from_status`, and the component
widths of the supported curves. The `raw()` tables and the other enumerations stand with the
methods that read them.
-/

namespace Trustm

/-! ## Status words -/

def OPTIGA_LIB_SUCCESS : UInt32 := 0
def OPTIGA_LIB_BUSY : UInt32 := 1

/-- What `run` stores before it issues a command: `OPTIGA_LIB_BUSY as u16`. -/
def busyStatus : UInt16 := OPTIGA_LIB_BUSY.toUInt16

inductive Error where
  /-- Status code returned by the host library or the chip. -/
  | status (code : UInt16)
  /-- The chip did not answer within the timeout. -/
  | timeout
  /-- Could not create a library instance. -/
  | noInstance
  /-- Another handle is alive in this process. -/
  | alreadyOpen
  /-- A caller-supplied argument was out of range for the chip. -/
  | invalidArgument (what : String)
  /-- The chip returned data in a shape we could not parse. -/
  | badData (what : String)
  deriving DecidableEq, Repr

abbrev Result (α : Type) := Except Error α

def Error.fromStatus (status : UInt16) : Result Unit :=
  if status.toUInt32 = OPTIGA_LIB_SUCCESS then .ok () else .error (.status status)

theorem toUInt32_eq_busy_iff (s : UInt16) : s.toUInt32 = OPTIGA_LIB_BUSY ↔ s = busyStatus := by
  rw [← UInt32.toNat_inj, ← UInt16.toNat_inj]
  simp [OPTIGA_LIB_BUSY, busyStatus]

theorem fromStatus_eq_ok_iff (s : UInt16) : Error.fromStatus s = .ok () ↔ s = 0 := by
  have h : s.toUInt32 = OPTIGA_LIB_SUCCESS ↔ s = 0 := by
    rw [← UInt32.toNat_inj, ← UInt16.toNat_inj]
    simp [OPTIGA_LIB_SUCCESS]
  simp only [Error.fromStatus, h]
  split <;> simp [*]

theorem fromStatus_eq_error {s : UInt16} {e : Error} (h : Error.fromStatus s = .error e) :
    e = .status s := by
  simp only [Error.fromStatus] at h
  split at h
  · cases h
  · exact (Except.error.inj h).symm

/-- A status word never turns into a timeout. -/
theorem fromStatus_ne_timeout (s : UInt16) : Error.fromStatus s ≠ .error .timeout := by
  simp only [Error.fromStatus]
  split <;> simp

/-! ## Curves -/

inductive EccCurve where
  | nistP256
  | nistP384
  | nistP521
  | brainpoolP256r1
  | brainpoolP384r1
  | brainpoolP512r1
  deriving DecidableEq, Repr

/-- Size in bytes of one field element / one signature component. -/
def EccCurve.componentLen : EccCurve → Nat
  | .nistP256 | .brainpoolP256r1 => 32
  | .nistP384 | .brainpoolP384r1 => 48
  | .nistP521 => 66
  | .brainpoolP512r1 => 64

end Trustm
