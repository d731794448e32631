import Trustm.Methods.Exported
import Trustm.Methods.Rejections

/-!
# Nothing is lost on the way back

A method hands the library a buffer and gives its caller what is in it, as long as the buffer
or as long as the library says. So a caller gets what the chip wrote, to the last byte.

* `Method.output`: the buffer of a method and the length it goes by.
* `perform_returns`: if the chip wrote some bytes that the buffer can hold and said how many, the
  method returns these bytes.
-/

namespace Trustm

open Outcome Effect

/-- The size of the output buffer, and how much of it is returned. -/
def Method.output : Method → Option (Nat × (Reply → Nat))
  | .readData _ _ => some (2048, Reply.len16)
  | .readMetadata _ => some (256, Reply.len16)
  | .random _ len => some (len.toNat, fun _ => len.toNat)
  | .hashSha256 _ | .hashSha256Oid _ _ _ => some (32, fun _ => 32)
  | .eccGenerateKeypair _ _ _ => some (256, Reply.len16)
  | .ecdsaSign _ _ => some (160, Reply.len16)
  | .ecdh _ curve _ => some (curve.componentLen, fun _ => curve.componentLen)
  | .rsaGenerateKeypair _ _ _ => some (512, Reply.len16)
  | .rsaSign _ _ _ => some (256, Reply.len16)
  | .rsaEncrypt keyType _ _ => some (keyType.modulusLen, Reply.len16)
  | .rsaDecrypt _ _ => some (256, Reply.len16)
  | .hmac kind _ _ => some (kind.macLen, Reply.len32)
  | .hkdf _ _ _ _ len | .tlsPrf _ _ _ _ len => some (len.toNat, fun _ => len.toNat)
  | .aesEcbEncrypt plain => some (plain.length, Reply.len32)
  | .aesEcbDecrypt cipher => some (cipher.length, Reply.len32)
  | .writeData _ _ _ _ | .writeMetadata _ _ | .updateCounter _ _ | .eccGenerateKeypairExported _
  | .ecdsaVerify _ _ _ _ | .ecdsaVerifyOid _ _ _ | .rsaVerify _ _ _ _ _
  | .symmetricGenerateKey _ _ => none

/-- The command succeeded, and left `bytes` in a buffer of size `n` with their length. -/
structure Reply.Holds (r : Reply) (n : Nat) (len : Reply → Nat) (bytes : List UInt8) : Prop where
  succeeds : r.completion.result = .ok ()
  written : r.written.getD 0 [] = bytes
  length : len r = bytes.length
  fits : bytes.length ≤ n

/-- The bytes, in front of what was in the buffer. -/
theorem Reply.output_zeros {r : Reply} {i n : Nat} {bytes : List UInt8}
    (h : r.written.getD i [] = bytes) (hfits : bytes.length ≤ n) :
    r.output i (List.replicate n 0) = bytes ++ List.replicate (n - bytes.length) 0 := by
  unfold Reply.output
  rw [h]
  dsimp only
  rw [List.length_replicate, List.take_of_length_le hfits, List.drop_replicate]

theorem Reply.Holds.truncate {r : Reply} {n : Nat} {len : Reply → Nat} {bytes : List UInt8}
    (h : r.Holds n len bytes) :
    Trustm.truncate (r.output 0 (List.replicate n 0)) (len r) = bytes := by
  rw [Reply.output_zeros h.written h.fits, h.length]
  exact List.take_left

/-! ## Rules -/

section

variable {α : Type} {chip : Chip} {guards : List (Bool × String)} {what : String} {n : Nat}
  {len : Reply → Nat}

/-- Unless it rejects its arguments, the computation returns what is in its buffer. -/
def Fetches (chip : Chip) (guards : List (Bool × String)) (n : Nat) (len : Reply → Nat)
    (x : Effect Host Error (List UInt8)) : Prop :=
  rejection guards = none → ∀ s bytes, (chip.next s).Holds n len bytes → (x s).1 = .ok bytes

theorem fetches_cons {fits : Bool} {x : Effect Host Error (List UInt8)}
    (h : fits = true → Fetches chip guards n len x) :
    Fetches chip ((fits, what) :: guards) n len x := by
  intro hpass
  cases fits with
  | true => exact h rfl hpass
  | false => cases hpass

theorem fetches_tryFrom {γ : Type} {size k : Nat} {ofNat : Nat → γ}
    {f : γ → Effect Host Error (List UInt8)}
    (h : k < size → Fetches chip guards n len (f (ofNat k))) :
    Fetches chip ((decide (k < size), what) :: guards) n len (tryFrom size ofNat k what >>= f) := by
  apply fetches_cons
  intro hfits
  have hk := of_decide_eq_true hfits
  rw [tryFrom_bind hk]
  exact h hk

theorem fetches_zeros {k : Nat} (hk : k < 2 ^ 32) {f : List UInt8 → Effect Host Error (List UInt8)}
    (h : Fetches chip guards n len (f (List.replicate k 0))) :
    Fetches chip guards n len (zeros k >>= f) := by
  rw [zeros_bind hk]
  exact h

theorem fetches_run {c : LibCommand} {g : Reply → List UInt8}
    (hg : ∀ r bytes, r.Holds n len bytes → g r = bytes) :
    Fetches chip [] n len (chip.run c >>= fun r => pure (g r)) := by
  intro _ s bytes h
  rw [bind_of_ok (chip.run_of_ok h.succeeds), pure_apply, hg _ bytes h]

/-- A buffer that is cut to the length that the library said. -/
theorem fetches_vec {c : LibCommand} :
    Fetches chip [] n len
      (chip.run c >>= fun r => pure (truncate (r.output 0 (List.replicate n 0)) (len r))) :=
  fetches_run fun _ _ h => h.truncate

/-- A buffer that is returned as a whole. -/
theorem fetches_array {c : LibCommand} :
    Fetches chip [] n (fun _ => n)
      (chip.run c >>= fun r => pure (r.output 0 (List.replicate n 0))) := by
  apply fetches_run
  intro r bytes h
  have hlen : bytes.length = n := h.length.symm
  rw [Reply.output_zeros h.written h.fits, hlen, Nat.sub_self, List.replicate_zero, List.append_nil]

end

/-! ## Methods -/

/-- **A method returns exactly the bytes that the chip wrote.** -/
theorem perform_returns (chip : Chip) (m : Method) (s : Host) {n : Nat} {len : Reply → Nat}
    {bytes : List UInt8} (hout : m.output = some (n, len)) (hguards : ∀ g ∈ m.guards, g.1 = true)
    (hholds : (chip.next s).Holds n len bytes) : (m.perform chip s).1 = .ok [bytes] := by
  have hpass := rejection_eq_none_iff.mpr hguards
  have hlisting {x : Effect Host Error (List UInt8)} (h : Fetches chip m.guards n len x) :
      (listing oneVec x s).1 = .ok [bytes] := listing_of_ok (h hpass s bytes hholds)
  cases m with
  | writeData | writeMetadata | updateCounter | eccGenerateKeypairExported | ecdsaVerify
  | ecdsaVerifyOid | rsaVerify | symmetricGenerateKey => cases hout
  | readData | readMetadata | eccGenerateKeypair | rsaGenerateKeypair =>
    cases hout
    exact hlisting (fetches_zeros (by decide) fetches_vec)
  | random rng length =>
    cases hout
    apply hlisting
    unfold Chip.random
    apply fetches_cons
    intro hfits
    rw [if_neg (not_not.mpr (of_decide_eq_true hfits))]
    exact fetches_zeros (length.toNat_lt.trans (by decide)) fetches_array
  | hashSha256 =>
    cases hout
    exact hlisting (fetches_tryFrom fun _ => fetches_array)
  | hashSha256Oid =>
    cases hout
    exact hlisting fetches_array
  | ecdsaSign | rsaSign | rsaDecrypt =>
    cases hout
    exact hlisting (fetches_tryFrom fun _ => fetches_zeros (by decide) fetches_vec)
  | ecdh slot curve =>
    cases hout
    exact hlisting (fetches_tryFrom fun _ => fetches_zeros (by cases curve <;> decide)
      fetches_array)
  | rsaEncrypt keyType =>
    cases hout
    exact hlisting (fetches_tryFrom fun _ => fetches_tryFrom fun _ =>
      fetches_zeros (by cases keyType <;> decide) fetches_vec)
  | hmac kind =>
    cases hout
    exact hlisting (fetches_tryFrom fun _ => fetches_zeros (by cases kind <;> decide) fetches_vec)
  | hkdf _ _ _ _ length | tlsPrf _ _ _ _ length =>
    cases hout
    exact hlisting (fetches_tryFrom fun _ => fetches_tryFrom fun _ =>
      fetches_zeros (length.toNat_lt.trans (by decide)) fetches_array)
  | aesEcbEncrypt | aesEcbDecrypt =>
    cases hout
    exact hlisting (fetches_tryFrom fun hk => fetches_zeros hk fetches_vec)

/-- A library that succeeds, and tells the length of the bytes it writes. -/
def tellingChip (bytes : List UInt8) : Chip where
  reply n := { (writingChip bytes).reply n with length := UInt32.ofNat bytes.length }

theorem len16_tellingChip {bytes : List UInt8} (h : bytes.length < 65536) (s : Host) :
    ((tellingChip bytes).next s).len16 = bytes.length := by
  change (UInt32.ofNat bytes.length).toUInt16.toNat = bytes.length
  rw [UInt32.toNat_toUInt16, UInt32.toNat_ofNat_of_lt' (h.trans (by decide)), Nat.mod_eq_of_lt h]

/-- A signature of six bytes. -/
theorem perform_returns_signature :
    ((Method.ecdsaSign .E0F1 [0x42]).perform (tellingChip [0x02, 0x01, 0x05, 0x02, 0x01, 0x07])
      .start).1 = .ok [[0x02, 0x01, 0x05, 0x02, 0x01, 0x07]] :=
  perform_returns _ _ .start rfl (by decide)
    ⟨rfl, rfl, len16_tellingChip (by decide) .start, by decide⟩

end Trustm
