import Trustm.Methods.Results
import Trustm.Signature.RoundTrip

/-!
# From one chip to another

The crate passes signatures on as `r || s` and public keys as bare points, and both go back to a
chip as DER. Here the whole ways are followed, through the buffers of both methods and the
conversions between them, on every curve.

* `relayed_signature`: what one chip signs reaches another as a signature with the same two
  numbers.
* `exchanged_key`: the public key of a new pair reaches the other side as it was written.
-/

namespace Trustm

open Outcome Effect Der BigEndian

/-! ## Sizes -/

/-- Encoded components of `n` bytes. -/
theorem exists_encoded {rs : List UInt8} {n : Nat} (hn : 1 ≤ n) (hshort : n ≤ 126)
    (hlen : rs.length = 2 * n) :
    ∃ d, ecdsaSignatureFromRs rs = .ok d ∧ ecdsaSignatureToRs d n = .ok rs ∧ WellFormed d ∧
      d.length ≤ 2 * n + 6 := by
  have halloc : 2 * n ≤ isizeMax := by
    unfold isizeMax
    omega
  obtain ⟨d, hd, hback⟩ := toRs_fromRs halloc hn hlen (fitsShortForm_of_le hlen hshort)
  refine ⟨d, hd, hback, (fromRs_toRs_iff hback).mp hd, ?_⟩
  have hne : rs ≠ [] := List.ne_nil_of_length_pos (by omega)
  have heven : rs.length % 2 = 0 := by omega
  obtain ⟨h₁, h₂⟩ := halves_eq hlen
  have hfirst : (firstHalf rs).length = n := by
    rw [h₁, List.length_take]
    omega
  have hsecond : (secondHalf rs).length = n := by
    rw [h₂, List.length_drop]
    omega
  have hle₁ := length_minimalContent_le (firstHalf rs)
  have hle₂ := length_minimalContent_le (secondHalf rs)
  rw [ecdsaSignatureFromRs_even hne heven, Outcome.ok.injEq] at hd
  rw [← hd, List.length_append, length_integer, length_integer]
  omega

/-- The wrapping adds a tag, a length field of at most two bytes and the count of unused bits. -/
theorem length_wrapPoint {p : List UInt8} (h : p.length < 255) :
    (wrapPoint p).length ≤ p.length + 4 := by
  have hfield : (lengthField (1 + p.length)).length ≤ 2 := by
    unfold lengthField
    split
    · exact Nat.le_succ 1
    · rw [if_pos (by omega)]
      exact le_rfl
  rw [wrapPoint, List.length_cons, List.length_append, List.length_cons]
  omega

/-! ## Verification and key agreement -/

section

variable (chip : Chip) (curve : EccCurve)

/-- The command that `ecdsa_verify` issues. -/
def hostVerifyCommand (key digest sig : List UInt8) : LibCommand :=
  .ecdsaVerify digest (UInt8.ofNat digest.length) sig (UInt16.ofNat sig.length)
    OPTIGA_CRYPT_HOST_DATA.toUInt8
    (.host ⟨key, UInt16.ofNat key.length, curve.raw.toUInt8⟩)

theorem ecdsaVerify_answers {key digest sig : List UInt8} (hkey : key.length < 65536)
    (hdigest : digest.length < 256) (hsig : sig.length < 65536) (s : Host) :
    chip.ecdsaVerify curve key digest sig s =
      (ofExcept (chip.next s).completion.result,
        s.ran (hostVerifyCommand curve key digest sig) (chip.next s)) := by
  unfold Chip.ecdsaVerify tryU8 tryU16
  rw [tryFrom_bind hdigest, tryFrom_bind hsig, tryFrom_bind hkey]
  cases hresult : (chip.next s).completion.result with
  | ok u => exact bind_of_ok (chip.run_of_ok hresult)
  | error e => exact bind_of_err (chip.run_of_error hresult)

/-- The command that `ecdh` issues. -/
def ecdhCommand (slot : KeyId) (key : List UInt8) : LibCommand :=
  .ecdh slot.raw ⟨key, UInt16.ofNat key.length, curve.raw.toUInt8⟩ 1
    (List.replicate curve.componentLen 0)

theorem ecdh_state {slot : KeyId} {key : List UInt8} (hkey : key.length < 65536) (s : Host) :
    (chip.ecdh slot curve key s).2 = s.ran (ecdhCommand curve slot key) (chip.next s) := by
  have halloc : curve.componentLen < 2 ^ 32 := by cases curve <;> decide
  unfold Chip.ecdh tryU16
  rw [tryFrom_bind hkey, zeros_bind halloc]
  exact state_run (fun _ _ => rfl) s

end

/-! ## The ways -/

/-- **A signature survives the way from one chip to another.** The numbers stay the same, the
DER form in front of the second chip is the shortest one, and it is passed with its length. -/
theorem relayed_signature (signer verifier : Chip) (curve : EccCurve) (slot : KeyId)
    {digest key sig rs : List UInt8} (s t : Host) (hdigest : digest.length < 256)
    (hkey : key.length < 65536) (hholds : (signer.next s).Holds 160 Reply.len16 sig)
    (hrs : ecdsaSignatureToRs sig curve.componentLen = .ok rs) :
    (signer.ecdsaSign slot digest s).1 = .ok sig ∧
      ∃ d, ecdsaSignatureFromRs rs = .ok d ∧ ecdsaSignatureToRs d curve.componentLen = .ok rs ∧
        WellFormed d ∧ d.length ≤ 160 ∧ (UInt16.ofNat d.length).toNat = d.length ∧
        verifier.ecdsaVerify curve key digest d t =
          (ofExcept (verifier.next t).completion.result,
            t.ran (hostVerifyCommand curve key digest d) (verifier.next t)) := by
  have hn := (componentLen_bounds curve).1
  have hwidth : curve.componentLen ≤ 66 := by cases curve <;> decide
  constructor
  · have hfetches : Fetches signer [(fitsU8 digest, "digest too long")] 160 Reply.len16
        (signer.ecdsaSign slot digest) :=
      fetches_tryFrom fun _ => fetches_zeros (by decide) fetches_vec
    apply hfetches _ s sig hholds
    rw [fitsU8, decide_eq_true hdigest]
    rfl
  · obtain ⟨_, c₁, c₂, _, hw₁, hw₂, rfl⟩ := eq_components_of_ok hrs
    obtain ⟨d, hd, hback, hwf, hle⟩ :=
      exists_encoded hn (hwidth.trans (by decide)) (length_components hw₁ hw₂)
    have hlen : d.length ≤ 160 := by omega
    have hsmall : d.length < 65536 := by omega
    exact ⟨d, hd, hback, hwf, hlen, UInt16.toNat_ofNat_of_lt' hsmall,
      ecdsaVerify_answers verifier curve hkey hdigest hsmall t⟩

/-- A redundant zero in `r` is gone behind the way. -/
theorem relayed_signature_padded :
    ((tellingChip [0x02, 0x02, 0x00, 0x05, 0x02, 0x01, 0x07]).ecdsaSign .E0F1 [0x42] .start).1 =
        .ok [0x02, 0x02, 0x00, 0x05, 0x02, 0x01, 0x07] ∧
      ∃ d, ecdsaSignatureFromRs (List.replicate 31 0 ++ 0x05 :: (List.replicate 31 0 ++ [0x07])) =
          .ok d ∧
        ecdsaSignatureToRs d 32 =
          .ok (List.replicate 31 0 ++ 0x05 :: (List.replicate 31 0 ++ [0x07])) ∧
        WellFormed d ∧ d.length ≤ 160 ∧ (UInt16.ofNat d.length).toNat = d.length ∧
        (tellingChip []).ecdsaVerify .nistP256 [] [0x42] d .start =
          (ofExcept ((tellingChip []).next .start).completion.result,
            Host.start.ran (hostVerifyCommand .nistP256 [] [0x42] d)
              ((tellingChip []).next .start)) :=
  relayed_signature _ _ .nistP256 .E0F1 .start .start (by decide) (by decide)
    ⟨rfl, rfl, len16_tellingChip (by decide) .start, by decide⟩ (by decide)

/-- **A new public key reaches the other side.** It fits the buffer on every curve, its point can
be taken out, and for a key agreement it is passed as it was written. -/
theorem exchanged_key (chip peer : Chip) (curve : EccCurve) (usage : KeyUsage)
    (slot slot' : KeyId) {p : List UInt8} (s t : Host) (hpoint : p.head? = some 0x04)
    (hlen : p.length = 1 + 2 * curve.componentLen)
    (hsucceeds : (chip.next s).completion.result = .ok ())
    (hwritten : (chip.next s).written.getD 0 [] = wrapPoint p)
    (hlength : (chip.next s).len16 = (wrapPoint p).length) :
    (chip.eccGenerateKeypair curve usage slot s).1 = .ok (wrapPoint p) ∧
      eccPublicKeyPoint (wrapPoint p) = .ok p ∧
      (UInt16.ofNat (wrapPoint p).length).toNat = (wrapPoint p).length ∧
      (peer.ecdh slot' curve (wrapPoint p) t).2 =
        t.ran (ecdhCommand curve slot' (wrapPoint p)) (peer.next t) := by
  have hwidth : curve.componentLen ≤ 66 := by cases curve <;> decide
  have hfits : (wrapPoint p).length ≤ p.length + 4 := length_wrapPoint (by omega)
  have hsmall : (wrapPoint p).length < 65536 := by omega
  refine ⟨?_, ?_, UInt16.toNat_ofNat_of_lt' hsmall, ecdh_state peer curve hsmall t⟩
  · have hfetches : Fetches chip [] 256 Reply.len16 (chip.eccGenerateKeypair curve usage slot) :=
      fetches_zeros (by decide) fetches_vec
    exact hfetches rfl s _ ⟨hsucceeds, hwritten, hlength, by omega⟩
  · apply eccPublicKeyPoint_of_unwraps
    exact ⟨hpoint, Or.inr ⟨0x00, _, lengthField_spec (by omega), rfl⟩⟩

/-- The coordinates of this curve have 66 bytes, so the length field takes two. -/
theorem exchanged_key_p521 :
    ((tellingChip (wrapPoint (0x04 :: List.replicate 132 0xCD))).eccGenerateKeypair .nistP521
        ⟨0x20⟩ .E0F1 .start).1 = .ok (wrapPoint (0x04 :: List.replicate 132 0xCD)) ∧
      eccPublicKeyPoint (wrapPoint (0x04 :: List.replicate 132 0xCD)) =
        .ok (0x04 :: List.replicate 132 0xCD) ∧
      (UInt16.ofNat (wrapPoint (0x04 :: List.replicate 132 0xCD)).length).toNat =
        (wrapPoint (0x04 :: List.replicate 132 0xCD)).length ∧
      ((tellingChip []).ecdh .E0F2 .nistP521 (wrapPoint (0x04 :: List.replicate 132 0xCD))
          .start).2 =
        Host.start.ran
          (ecdhCommand .nistP521 .E0F2 (wrapPoint (0x04 :: List.replicate 132 0xCD)))
          ((tellingChip []).next .start) :=
  exchanged_key _ _ .nistP521 ⟨0x20⟩ .E0F1 .E0F2 .start .start rfl (by simp; rfl) rfl rfl
    (len16_tellingChip ((length_wrapPoint (by simp)).trans_lt (by simp)) .start)

end Trustm
