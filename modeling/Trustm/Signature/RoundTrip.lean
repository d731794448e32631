import Trustm.Signature.Encode

/-!
# The two signature codecs against each other

* Encoding then decoding at the same width is the identity whenever both components have a
  short-form encoding (`ecdsaSignature_roundtrip`); every width up to 126 qualifies, and so
  does every supported curve.
* Decoding then encoding replaces each content by the minimal content of its value, so it is
  the identity on canonical signatures and changes every other accepted input
  (`ecdsaSignatureFromRs_toRs_iff`).
-/

namespace Trustm

open Outcome BigEndian Der

/-! ## Halves -/

theorem halves_eq {rs : List UInt8} {n : Nat} (hlen : rs.length = 2 * n) :
    firstHalf rs = rs.take n ∧ secondHalf rs = rs.drop n := by
  have hhalf : rs.length / 2 = n := by omega
  simp only [firstHalf, secondHalf, hhalf, and_self]

/-- Padding the stripped string back to its old width restores it. -/
theorem leftpad_stripZeros (bs : List UInt8) : (stripZeros bs).leftpad bs.length 0 = bs := by
  obtain ⟨k, hk⟩ := eq_zeros_append_stripZeros bs
  have hlen := congrArg List.length hk
  simp only [List.length_append, List.length_replicate] at hlen
  have hpad : bs.length - (stripZeros bs).length = k := by omega
  rw [List.leftpad, hpad]
  exact hk.symm

/-! ## Encode, then decode -/

/-- Each half needs at most 127 content octets as a minimal non-negative INTEGER. -/
def FitsShortForm (rs : List UInt8) (n : Nat) : Prop :=
  (minimalContent (rs.take n)).length ≤ 127 ∧ (minimalContent (rs.drop n)).length ≤ 127

theorem fitsShortForm_of_le {rs : List UInt8} {n : Nat} (hlen : rs.length = 2 * n)
    (hn : n ≤ 126) : FitsShortForm rs n := by
  have h₁ := length_minimalContent_le (rs.take n)
  have h₂ := length_minimalContent_le (rs.drop n)
  rw [List.length_take] at h₁
  rw [List.length_drop] at h₂
  exact ⟨by omega, by omega⟩

theorem componentLen_bounds (curve : EccCurve) :
    1 ≤ curve.componentLen ∧ curve.componentLen ≤ 126 := by
  cases curve <;> decide

theorem toRs_fromRs {rs : List UInt8} {n : Nat} (halloc : 2 * n ≤ isizeMax) (hn : 1 ≤ n)
    (hlen : rs.length = 2 * n) (hfit : FitsShortForm rs n) :
    ∃ d, ecdsaSignatureFromRs rs = .ok d ∧ ecdsaSignatureToRs d n = .ok rs := by
  have hne : rs ≠ [] := List.ne_nil_of_length_pos (by omega)
  have heven : rs.length % 2 = 0 := by omega
  have hne₁ := firstHalf_ne_nil hne heven
  have hne₂ := secondHalf_ne_nil hne
  refine ⟨_, ecdsaSignatureFromRs_even hne heven, ?_⟩
  obtain ⟨h₁, h₂⟩ := halves_eq hlen
  rw [h₁] at hne₁ ⊢
  rw [h₂] at hne₂ ⊢
  have hlen₁ : (rs.take n).length = n := by
    rw [List.length_take]
    omega
  have hlen₂ : (rs.drop n).length = n := by
    rw [List.length_drop]
    omega
  have hw₁ := stripZeros_length_le (rs.take n)
  have hw₂ := stripZeros_length_le (rs.drop n)
  rw [ecdsaSignatureToRs_integers halloc ⟨length_minimalContent_pos hne₁, hfit.1⟩
    ⟨length_minimalContent_pos hne₂, hfit.2⟩
    (by rw [stripZeros_minimalContent hne₁]; omega)
    (by rw [stripZeros_minimalContent hne₂]; omega)]
  have hpad₁ := leftpad_stripZeros (rs.take n)
  have hpad₂ := leftpad_stripZeros (rs.drop n)
  rw [hlen₁] at hpad₁
  rw [hlen₂] at hpad₂
  rw [components, stripZeros_minimalContent hne₁, stripZeros_minimalContent hne₂, hpad₁, hpad₂,
    List.take_append_drop]

/-- **Encode, then decode.** -/
theorem ecdsaSignature_roundtrip :
    (∀ (rs : ByteString) (n : Nat), 1 ≤ n → rs.bytes.length = 2 * n → FitsShortForm rs.bytes n →
      ∃ d, ecdsaSignatureFromRs rs.bytes = .ok d ∧ ecdsaSignatureToRs d n = .ok rs.bytes) ∧
    (∀ (rs : List UInt8) (n : Nat), rs.length = 2 * n → n ≤ 126 → FitsShortForm rs n) ∧
    (∀ curve : EccCurve, 1 ≤ curve.componentLen ∧ curve.componentLen ≤ 126) := by
  refine ⟨fun rs n hn hlen hfit => ?_, fun rs n => fitsShortForm_of_le, componentLen_bounds⟩
  exact toRs_fromRs (hlen ▸ rs.fits) hn hlen hfit

/-- A component with its top bit set next to one that shrinks to a single byte. -/
theorem ecdsaSignature_roundtrip_mixed :
    ∃ d, ecdsaSignatureFromRs [0x80, 0x00, 0x00, 0x01] = .ok d ∧
      ecdsaSignatureToRs d 2 = .ok [0x80, 0x00, 0x00, 0x01] :=
  ecdsaSignature_roundtrip.1 ⟨[0x80, 0x00, 0x00, 0x01], by decide⟩ 2 (by decide) rfl
    (ecdsaSignature_roundtrip.2.1 _ 2 rfl (by decide))

example : ecdsaSignatureFromRs [0x80, 0x00, 0x00, 0x01] =
    .ok [0x02, 0x03, 0x00, 0x80, 0x00, 0x02, 0x01, 0x01] := by decide

/-! ## Decode, then encode -/

theorem minimalContent_leftpad {c : List UInt8} {n : Nat} (hc : c ≠ [])
    (hw : (stripZeros c).length ≤ n) :
    minimalContent ((stripZeros c).leftpad n 0) = minimalContent c := by
  refine minimalContent_congr ?_ hc ?_
  · have hpos : 0 < (stripZeros c).length := List.length_pos_iff.mpr (stripZeros_ne_nil hc)
    apply List.ne_nil_of_length_pos
    rw [length_leftpad_of_le hw]
    omega
  · rw [value_leftpad, value_stripZeros]

/-- Encoding what was decoded normalises both contents. -/
theorem fromRs_components {n : Nat} {c₁ c₂ : List UInt8} (hc₁ : ShortContent c₁)
    (hc₂ : ShortContent c₂) (hw₁ : (stripZeros c₁).length ≤ n)
    (hw₂ : (stripZeros c₂).length ≤ n) :
    ecdsaSignatureFromRs (components n c₁ c₂) =
      .ok (integer (minimalContent c₁) ++ integer (minimalContent c₂)) := by
  have hpos : 0 < (stripZeros c₁).length := List.length_pos_iff.mpr (stripZeros_ne_nil hc₁.ne_nil)
  have hlen : (components n c₁ c₂).length = 2 * n := length_components hw₁ hw₂
  have hne : components n c₁ c₂ ≠ [] := List.ne_nil_of_length_pos (by omega)
  obtain ⟨h₁, h₂⟩ := halves_eq hlen
  rw [ecdsaSignatureFromRs_even hne (by omega), h₁, h₂, take_components _ hw₁,
    drop_components _ hw₁, minimalContent_leftpad hc₁.ne_nil hw₁,
    minimalContent_leftpad hc₂.ne_nil hw₂]

theorem fromRs_toRs_iff {sig rs : List UInt8} {n : Nat} (h : ecdsaSignatureToRs sig n = .ok rs) :
    ecdsaSignatureFromRs rs = .ok sig ↔ WellFormed sig := by
  obtain ⟨-, c₁, c₂, hsig, hw₁, hw₂, rfl⟩ := eq_components_of_ok h
  rw [fromRs_components hsig.short₁ hsig.short₂ hw₁ hw₂, Outcome.ok.injEq]
  constructor
  · intro heq
    -- the normal form is read back as `c₁`, `c₂`, so its length octets were not cut
    have hback : TwoIntegers (integer (minimalContent c₁) ++ integer (minimalContent c₂)) c₁ c₂ :=
      ⟨heq.trans hsig.eq, hsig.short₁, hsig.short₂⟩
    obtain ⟨hs₁, hs₂⟩ := short_of_twoIntegers hback
    obtain ⟨h₁, h₂⟩ := TwoIntegers.unique ⟨rfl, hs₁, hs₂⟩ hback
    exact ⟨c₁, c₂, hsig, (minimalContent_eq_self_iff hsig.short₁.ne_nil).mp h₁,
      (minimalContent_eq_self_iff hsig.short₂.ne_nil).mp h₂⟩
  · rintro ⟨d₁, d₂, hd, hcan₁, hcan₂⟩
    obtain ⟨rfl, rfl⟩ := hsig.unique hd
    rw [hcan₁.minimalContent_eq, hcan₂.minimalContent_eq, hsig.eq]

/-- **Decode, then encode.** -/
theorem ecdsaSignatureFromRs_toRs_iff (sig : List UInt8) (n : Nat) (rs : List UInt8)
    (h : ecdsaSignatureToRs sig n = .ok rs) :
    (ecdsaSignatureFromRs rs = .ok sig ↔
      ∃ c₁ c₂, TwoIntegers sig c₁ c₂ ∧ Canonical c₁ ∧ Canonical c₂) ∧
    (∀ sig', ecdsaSignatureToRs sig' n = .ok rs → WellFormed sig → WellFormed sig' →
      sig = sig') := by
  refine ⟨fromRs_toRs_iff h, ?_⟩
  intro sig' h' hwf hwf'
  have hback := (fromRs_toRs_iff h).mpr hwf
  rw [(fromRs_toRs_iff h').mpr hwf'] at hback
  exact (Outcome.ok.inj hback).symm

/-- A redundant zero in `r`: the signature is accepted but not reproduced. -/
theorem ecdsaSignatureFromRs_toRs_iff_padded :
    ecdsaSignatureFromRs [0x05, 0x07] = .ok [0x02, 0x02, 0x00, 0x05, 0x02, 0x01, 0x07] ↔
      ∃ c₁ c₂, TwoIntegers [0x02, 0x02, 0x00, 0x05, 0x02, 0x01, 0x07] c₁ c₂ ∧ Canonical c₁ ∧
        Canonical c₂ :=
  (ecdsaSignatureFromRs_toRs_iff _ 1 _ (by decide)).1

end Trustm
