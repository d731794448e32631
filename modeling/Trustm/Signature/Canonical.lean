import Trustm.Signature.RoundTrip

/-!
# What the encoder writes

The signature encoder is canonical: as long as the short length form can announce both
contents, it writes the shortest DER INTEGER of each component and nothing else
(`ecdsaSignatureFromRs_canonical`). In particular its output depends on the two numbers only
and not on the width they are given in.
-/

namespace Trustm

open Outcome BigEndian Der

/-- The components of width `n`, padded on the left to the width `m`. -/
def widen (rs : List UInt8) (n m : Nat) : List UInt8 :=
  (rs.take n).leftpad m 0 ++ (rs.drop n).leftpad m 0

theorem fromRs_natIntegers {rs : List UInt8} {n : Nat} (hn : 1 ≤ n) (hlen : rs.length = 2 * n) :
    ecdsaSignatureFromRs rs =
      .ok (natInteger (value (rs.take n)) ++ natInteger (value (rs.drop n))) := by
  have hne : rs ≠ [] := List.ne_nil_of_length_pos (by omega)
  have heven : rs.length % 2 = 0 := by omega
  have hne₁ := firstHalf_ne_nil hne heven
  have hne₂ := secondHalf_ne_nil hne
  obtain ⟨h₁, h₂⟩ := halves_eq hlen
  rw [ecdsaSignatureFromRs_even hne heven, ← h₁, ← h₂, natInteger, natInteger,
    natContent_value hne₁, natContent_value hne₂]

theorem length_widen {rs : List UInt8} {n m : Nat} (hlen : rs.length = 2 * n) (hm : n ≤ m) :
    (widen rs n m).length = 2 * m := by
  have h₁ : (rs.take n).length ≤ m := by
    rw [List.length_take]
    omega
  have h₂ : (rs.drop n).length ≤ m := by
    rw [List.length_drop]
    omega
  rw [widen, List.length_append, length_leftpad_of_le h₁, length_leftpad_of_le h₂]
  omega

/-- **The encoder is canonical.** -/
theorem ecdsaSignatureFromRs_canonical (rs : List UInt8) (n : Nat) (hn : 1 ≤ n)
    (hlen : rs.length = 2 * n) (hr : (natContent (value (rs.take n))).length ≤ 127)
    (hs : (natContent (value (rs.drop n))).length ≤ 127) :
    ecdsaSignatureFromRs rs =
        .ok (natInteger (value (rs.take n)) ++ natInteger (value (rs.drop n))) ∧
      (∀ v, v = value (rs.take n) ∨ v = value (rs.drop n) → IsInteger (natInteger v) v ∧
        ∀ d, IsInteger d v → d = natInteger v ∨ (natInteger v).length < d.length) ∧
      natInteger 0 = [0x02, 0x01, 0x00] ∧
      ∀ m, n ≤ m → ecdsaSignatureFromRs (widen rs n m) = ecdsaSignatureFromRs rs := by
  refine ⟨fromRs_natIntegers hn hlen, ?_, by decide, ?_⟩
  · intro v hv
    refine ⟨isInteger_natInteger ?_, fun d hd => hd.eq_or_longer⟩
    rcases hv with rfl | rfl
    · exact hr
    · exact hs
  · intro m hm
    have hfirst : (rs.take n).length ≤ m := by
      rw [List.length_take]
      omega
    have htake : (widen rs n m).take m = (rs.take n).leftpad m 0 :=
      List.take_left' (length_leftpad_of_le hfirst)
    have hdrop : (widen rs n m).drop m = (rs.drop n).leftpad m 0 :=
      List.drop_left' (length_leftpad_of_le hfirst)
    rw [fromRs_natIntegers (by omega) (length_widen hlen hm), fromRs_natIntegers hn hlen, htake,
      hdrop, value_leftpad, value_leftpad]

/-- A component with its top bit set next to zero, in two octets each. -/
theorem ecdsaSignatureFromRs_canonical_zero :
    ecdsaSignatureFromRs [0x00, 0x80, 0x00, 0x00] = .ok (natInteger 128 ++ natInteger 0) :=
  (ecdsaSignatureFromRs_canonical [0x00, 0x80, 0x00, 0x00] 2 (by decide) rfl (by decide)
    (by decide)).1

end Trustm
