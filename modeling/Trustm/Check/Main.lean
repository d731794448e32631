import Trustm.Check.Certificate
import Trustm.Methods.Calls
import Trustm.Signature.Codec

/-!
# `trustm-check`

The program `trustm-check.rs`: its checks in their order, the report with its counters, and the
exit code.

* `CheckState`: the host, the counters, the lines printed for the checks, and the two variables
  of `main` that the closures of two checks assign. A closure is a computation on this state
  that returns the text behind its line; the time on a line, and the first and the last line of
  the output, are left out.
* `Report.check`: one check; `main`: the whole program on its arguments. An error of `main` is the
  argument of `process::exit`.

The counters are natural numbers: a run makes 18 reports. The arguments are strings, as in
`Vec<String>`. On one that is not UTF-8, `std::env::args` panics before `main` looks at any of them;
this is left out.
-/

namespace Trustm

open Outcome Effect

/-! ## State -/

/-- A line of the output with the name of its check. -/
inductive Line where
  | ok (name info : String)
  | fail (name : String) (e : Error)
  | skip (name : String)
  deriving DecidableEq, Repr

structure Report where
  failed : Nat
  passed : Nat
  deriving DecidableEq, Repr

structure CheckState where
  host : Host
  report : Report
  lines : List Line
  factoryPub : Option (List UInt8)
  signature : Option (List UInt8)
  deriving DecidableEq

def CheckState.start : CheckState := ⟨.start, ⟨0, 0⟩, [], none, none⟩

/-- A method of the handle. -/
def device {α : Type} (x : Effect Host Error α) : Effect CheckState Error α :=
  Effect.on CheckState.host (fun host m => { m with host := host }) x

/-- Steps of `main`; `process::exit(n)` is the error `n`. -/
abbrev Script := Effect CheckState Nat Unit

/-! ## Report -/

def Report.ok (name info : String) : Script :=
  modify fun m => { m with
    report := { m.report with passed := m.report.passed + 1 }
    lines := m.lines ++ [.ok name info] }

def Report.fail (name : String) (e : Error) : Script :=
  modify fun m => { m with
    report := { m.report with failed := m.report.failed + 1 }
    lines := m.lines ++ [.fail name e] }

def Report.skip (name : String) : Script :=
  modify fun m => { m with lines := m.lines ++ [.skip name] }

def Report.check (name : String) (f : Effect CheckState Error String) : Script := do
  match ← attempt f with
  | .ok info => Report.ok name info
  | .error e => Report.fail name e

def Report.finish : Script := do
  let m ← get
  if m.report.failed > 0 then
    lift (.err 1)

/-! ## Helpers -/

def expect (cond : Prop) [Decidable cond] (msg : String) : Outcome Error Unit :=
  if cond then .ok () else .err (.badData msg)

/-- `3` becomes `/dev/i2c-3`; anything else is taken as a device path. -/
def busPath (arg : String) : String :=
  if arg.toList.all Char.isDigit then "/dev/i2c-" ++ arg else arg

/-- The bytes of a string, in UTF-8. -/
def asBytes (s : String) : List UInt8 := s.toUTF8.data.toList

def hexByte (x : UInt8) : String :=
  String.ofList [Nat.digitChar (x.toNat / 16), Nat.digitChar (x.toNat % 16)]

def hex (b : List UInt8) : String := String.join (b.map hexByte)

/-! ## Checks -/

section Checks

variable (chip : Chip)

/-- A check that reads a data object and looks at its bytes. -/
def readCheck (oid : UInt16) (view : List UInt8 → Outcome Error String) :
    Effect CheckState Error String := do
  let v ← device (chip.readData oid 0)
  lift (view v)

def uidView (uid : List UInt8) : Outcome Error String := do
  expect (uid.length = 27) "UID should be 27 bytes"
  return hex uid

def lifecycleName (v : List UInt8) : String :=
  match v.head? with
  | some 0x01 => "creation"
  | some 0x03 => "initialization"
  | some 0x07 => "operational"
  | some 0x0F => "termination"
  | _ => "?"

def lifecycleView (v : List UInt8) : Outcome Error String :=
  .ok (hex v ++ " (" ++ lifecycleName v ++ ")")

def hexView (v : List UInt8) : Outcome Error String := .ok (hex v)

def commBufferView (v : List UInt8) : Outcome Error String := do
  expect (v.length = 2) "expected 2 bytes"
  let high ← index v 0
  let low ← index v 1
  return toString (high.toNat * 256 + low.toNat) ++ " bytes"

def metadataCheck (oid : UInt16) : Effect CheckState Error String := do
  let v ← device (chip.readMetadata oid)
  lift (hexView v)

def metadataObjects : List (UInt16 × String) :=
  [(0xE0F0, "factory key slot 0xE0F0"), (0xE0F1, "key slot 0xE0F1"),
    (0xE0E0, "certificate 0xE0E0"), (0xF1D1, "data object 0xF1D1")]

def certificateCheck : Effect CheckState Error String := do
  let raw ← device (chip.readData 0xE0E0 0)
  let der ← lift (stripCertHeader raw)
  lift (expect ([0x30, 0x82] <+: der) "certificate should be a DER SEQUENCE")
  let found ← lift (findP256Spki der)
  let point ← lift (okOr found (.badData "no P-256 public key in certificate"))
  modify fun m => { m with factoryPub := some point }
  return toString der.length ++ " bytes, P-256 public key found"

def randomCheck : Effect CheckState Error String := do
  let a ← device (chip.random .trng 32)
  let b ← device (chip.random .trng 32)
  lift (expect (a ≠ b) "two draws should differ")
  lift (expect (∃ x ∈ a, x ≠ 0) "all zero")
  let first ← lift (sliceTo a 8)
  return hex first ++ "..."

/-- `b"abc"` -/
def abc : List UInt8 := [0x61, 0x62, 0x63]

def WANT : List UInt8 :=
  [0xba, 0x78, 0x16, 0xbf, 0x8f, 0x01, 0xcf, 0xea, 0x41, 0x41, 0x40, 0xde, 0x5d, 0xae, 0x22, 0x23,
    0xb0, 0x03, 0x61, 0xa3, 0x96, 0x17, 0x7a, 0x9c, 0xb4, 0x10, 0xff, 0x61, 0xf2, 0x00, 0x15, 0xad]

def hashView (d : List UInt8) : Outcome Error String := do
  expect (d = WANT) "digest mismatch"
  return "matches"

def hashCheck : Effect CheckState Error String := do
  let d ← device (chip.hashSha256 abc)
  lift (hashView d)

def digest : List UInt8 := List.replicate 32 0x42

def signCheck : Effect CheckState Error String := do
  let s ← device (chip.ecdsaSign .E0F0 digest)
  let rs ← lift (ecdsaSignatureToRs s 32)
  lift (expect (rs.length = 64) "r||s should be 64 bytes")
  let out := toString s.length ++ " bytes DER, r||s ok"
  modify fun m => { m with signature := some s }
  return out

def verifyCheck (derKey sig : List UInt8) : Effect CheckState Error String := do
  device (chip.ecdsaVerify .nistP256 derKey digest sig)
  return "valid"

/-- The digest with one bit of its first byte flipped. -/
def tampered : List UInt8 := digest.set 0 (0x42 ^^^ 1)

def tamperedCheck (derKey sig : List UInt8) : Effect CheckState Error String := do
  match ← attempt (device (chip.ecdsaVerify .nistP256 derKey tampered sig)) with
  | .error _ => return "rejected"
  | .ok () => lift (.err (.badData "tampered digest verified"))

/-! ## Main -/

/-- The signature is verified with the key of the certificate, or both checks are skipped. -/
def verifyChecks : Script := do
  let m ← get
  match m.signature, m.factoryPub with
  | some sig, some point =>
    -- the chip wants the BIT STRING form for host-supplied keys
    let derKey := hostKey point
    Report.check "ECDSA verify on chip against certificate key" (verifyCheck chip derKey sig)
    Report.check "ECDSA verify rejects a tampered digest" (tamperedCheck chip derKey sig)
  | _, _ =>
    Report.skip "ECDSA verify on chip against certificate key"
    Report.skip "ECDSA verify rejects a tampered digest"

def closeChecks : Script := do
  match ← attempt (device chip.close) with
  | .ok () => Report.ok "close application" ""
  | .error e => Report.fail "close application" e
  Report.finish

/-- `main` behind a successful `open`. -/
def checks : Script := do
  Report.check "read coprocessor UID (0xE0C2)" (readCheck chip 0xE0C2 uidView)
  Report.check "read lifecycle state (0xE0C0)" (readCheck chip 0xE0C0 lifecycleView)
  Report.check "read security status (0xE0C1)" (readCheck chip 0xE0C1 hexView)
  Report.check "read security event counter (0xE0C5)" (readCheck chip 0xE0C5 hexView)
  Report.check "read max comm buffer size (0xE0C6)" (readCheck chip 0xE0C6 commBufferView)
  Report.check "read monotonic counter (0xE120)" (readCheck chip 0xE120 hexView)
  metadataObjects.forM fun (oid, what) =>
    Report.check ("read metadata of " ++ what) (metadataCheck chip oid)
  Report.check "read factory certificate (0xE0E0)" (certificateCheck chip)
  Report.check "random 32 bytes (TRNG)" (randomCheck chip)
  Report.check "SHA-256 known answer" (hashCheck chip)
  Report.check "ECDSA sign with factory key 0xE0F0" (signCheck chip)
  verifyChecks chip
  closeChecks chip

/-- `main` with a bus, by the bytes of its path. -/
def mainBus (bus : List UInt8) : Script := do
  match ← attempt (device (chip.open bus DEFAULT_ADDR)) with
  | .ok () =>
    Report.ok "open application" ""
    checks chip
  | .error e =>
    Report.fail "open application" e
    Report.finish

def main (args : List String) : Script :=
  match args with
  | [b] => if b = "-h" ∨ b = "--help" then pure () else mainBus chip (asBytes (busPath b))
  | _ => lift (.err 2)

end Checks

/-- The exit status of the process; a panic exits with 101. -/
def exitCode : Outcome Nat Unit → Nat
  | .ok () => 0
  | .err n => n
  | .panic => 101

end Trustm
