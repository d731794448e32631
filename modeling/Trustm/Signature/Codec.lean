import Trustm.Support.Outcome
import Trustm.Support.BigEndian
import Trustm.Types

/-!
# The signature codec

`der_uint_into`, `ecdsa_signature_to_rs` and `ecdsa_signature_from_rs` of `lib.rs`, statement
by statement. Every slice, index, copy, subtraction and zeroed allocation is a checked step,
so an out-of-bounds access would show up as the outcome `panic`.

Both functions run the loop `while v.len() > 1 && v[0] == 0 { v = &v[1..]; }`, which is
`BigEndian.stripZeros`: its pattern is the guard. `Vec::with_capacity` only reserves and is
the empty vector here; that it panics above `isize::MAX`, on an `rs` within six bytes of that
length, is left out.
-/

namespace Trustm

open Outcome BigEndian

/-- Read one INTEGER from the front of `buf` into the slice `out`: the number of bytes read
and the new contents of `out`. -/
def derUintInto (buf out : List UInt8) : Outcome Error (Nat × List UInt8) := do
  -- `buf.len() < 2 || buf[0] != 0x02`: the index is evaluated only behind the length test
  if buf.length < 2 then .err (.badData "expected DER INTEGER")
  if (← index buf 0) ≠ 0x02 then .err (.badData "expected DER INTEGER")
  let len := (← index buf 1).toNat
  if len = 0 ∨ len ≥ 0x80 ∨ buf.length < 2 + len then .err (.badData "DER INTEGER length")
  let v := stripZeros (← slice buf 2 (2 + len))
  if v.length > out.length then .err (.badData "integer wider than the curve")
  let out := List.replicate out.length 0
  let start ← sub out.length v.length
  let tail ← copyFromSlice (← sliceFrom out start) v
  return (2 + len, out.take start ++ tail)

def ecdsaSignatureToRs (sig : List UInt8) (componentLen : Nat) :
    Outcome Error (List UInt8) := do
  let out ← vec 0 (componentLen * 2)
  let (usedR, r) ← derUintInto sig (← sliceTo out componentLen)
  let out := r ++ out.drop componentLen
  let (usedS, s) ← derUintInto (← sliceFrom sig usedR) (← sliceFrom out componentLen)
  let out := out.take componentLen ++ s
  if usedR + usedS ≠ sig.length then .err (.badData "trailing bytes after signature")
  return out

/-- The body of the loop of `ecdsa_signature_from_rs` for one `part`. -/
def pushInteger (out part : List UInt8) : Outcome Error (List UInt8) := do
  let v := stripZeros part
  let pad := decide ((← index v 0) &&& 0x80 ≠ 0)
  let out := out ++ [0x02]
  -- `(v.len() + pad as usize) as u8` keeps the low eight bits
  let out := out ++ [UInt8.ofNat (v.length + pad.toNat)]
  let out := if pad then out ++ [0] else out
  return out ++ v

def ecdsaSignatureFromRs (rs : List UInt8) : Outcome Error (List UInt8) := do
  if rs.isEmpty ∨ rs.length % 2 ≠ 0 then
    .err (.invalidArgument "r||s must have even length")
  let half := rs.length / 2
  [← sliceTo rs half, ← sliceFrom rs half].foldlM pushInteger []

end Trustm
