import Trustm.Signature.Canonical

/-!
# The codec at two widths

The width of the components is a parameter of the decoder and half the length of the
encoder's input. Neither function depends on it beyond the bound it sets.

* Decoding at a larger width answers the same two numbers, padded; a width that is too small
  is the only way an answer gets lost (`ecdsaSignatureToRs_widen_iff`).
* Two inputs of the encoder, of whatever widths, have one encoding exactly when they hold the
  same two numbers (`ecdsaSignatureFromRs_eq_iff`).
-/

namespace Trustm

open Outcome BigEndian Der

theorem leftpad_leftpad {v : List UInt8} {n m : Nat} (hv : v.length ≤ n) (hm : n ≤ m) :
    (v.leftpad n 0).leftpad m 0 = v.leftpad m 0 := by
  have hlen : (v.leftpad n 0).length = n := length_leftpad_of_le hv
  have hsum : m - n + (n - v.length) = m - v.length := by omega
  calc (v.leftpad n 0).leftpad m 0 = List.replicate (m - n) 0 ++ v.leftpad n 0 := by
        rw [List.leftpad, hlen]
    _ = List.replicate (m - n + (n - v.length)) 0 ++ v := by
        rw [List.leftpad, ← List.append_assoc, List.replicate_append_replicate]
    _ = v.leftpad m 0 := by rw [hsum, List.leftpad]

/-! ## Decoding -/

theorem widen_components {n m : Nat} {c₁ c₂ : List UInt8} (hm : n ≤ m)
    (hw₁ : (stripZeros c₁).length ≤ n) (hw₂ : (stripZeros c₂).length ≤ n) :
    widen (components n c₁ c₂) n m = components m c₁ c₂ := by
  rw [widen, take_components _ hw₁, drop_components _ hw₁, leftpad_leftpad hw₁ hm,
    leftpad_leftpad hw₂ hm, components]

/-- A widened string keeps the numbers of its halves. -/
theorem value_widen {rs : List UInt8} {n m : Nat} (hlen : rs.length = 2 * n) (hm : n ≤ m) :
    value ((widen rs n m).take m) = value (rs.take n) ∧
      value ((widen rs n m).drop m) = value (rs.drop n) := by
  have hfirst : (rs.take n).length ≤ m := by
    rw [List.length_take]
    omega
  have htake : (widen rs n m).take m = (rs.take n).leftpad m 0 :=
    List.take_left' (length_leftpad_of_le hfirst)
  have hdrop : (widen rs n m).drop m = (rs.drop n).leftpad m 0 :=
    List.drop_left' (length_leftpad_of_le hfirst)
  rw [htake, hdrop]
  exact ⟨value_leftpad _ _, value_leftpad _ _⟩

/-- Strings of two components are determined by the two numbers. -/
theorem eq_of_halves {xs ys : List UInt8} {n : Nat} (hx : xs.length = 2 * n)
    (hy : ys.length = 2 * n) (hr : value (xs.take n) = value (ys.take n))
    (hs : value (xs.drop n) = value (ys.drop n)) : xs = ys := by
  have htake : (xs.take n).length = (ys.take n).length := by
    rw [List.length_take, List.length_take, hx, hy]
  have hdrop : (xs.drop n).length = (ys.drop n).length := by
    rw [List.length_drop, List.length_drop, hx, hy]
  calc xs = xs.take n ++ xs.drop n := (List.take_append_drop n xs).symm
    _ = ys.take n ++ ys.drop n := by rw [value_inj htake hr, value_inj hdrop hs]
    _ = ys := List.take_append_drop n ys

/-- **Decoding at two widths.** -/
theorem ecdsaSignatureToRs_widen_iff (sig rs : List UInt8) (n m : Nat) (hn : 1 ≤ n)
    (hm : n ≤ m) (halloc : 2 * m ≤ isizeMax) :
    ecdsaSignatureToRs sig n = .ok rs ↔
      rs.length = 2 * n ∧ ecdsaSignatureToRs sig m = .ok (widen rs n m) := by
  constructor
  · intro h
    obtain ⟨-, c₁, c₂, hsig, hw₁, hw₂, rfl⟩ := eq_components_of_ok h
    refine ⟨length_components hw₁ hw₂, ?_⟩
    rw [widen_components hm hw₁ hw₂, hsig.eq]
    exact ecdsaSignatureToRs_integers halloc hsig.short₁ hsig.short₂ (hw₁.trans hm) (hw₂.trans hm)
  · intro h
    obtain ⟨hlen, hwide⟩ := h
    obtain ⟨-, c₁, c₂, hsig, hm₁, hm₂, heq⟩ := eq_components_of_ok hwide
    obtain ⟨hr, hs⟩ := value_widen hlen hm
    rw [heq, take_components _ hm₁, value_leftpad, value_stripZeros] at hr
    rw [heq, drop_components _ hm₁, value_leftpad, value_stripZeros] at hs
    -- the halves of `rs` bound the numbers, so the narrow width is enough for them
    have hw₁ : (stripZeros c₁).length ≤ n := by
      rw [stripZeros_length_le_iff hsig.short₁.ne_nil hn, hr]
      have hfirst := value_lt (rs.take n)
      rwa [List.length_take, hlen, Nat.min_eq_left (by omega)] at hfirst
    have hw₂ : (stripZeros c₂).length ≤ n := by
      rw [stripZeros_length_le_iff hsig.short₂.ne_nil hn, hs]
      have hsecond := value_lt (rs.drop n)
      rwa [List.length_drop, hlen, show 2 * n - n = n by omega] at hsecond
    have hrs : components n c₁ c₂ = rs := by
      apply eq_of_halves (length_components hw₁ hw₂) hlen
      · rw [take_components _ hw₁, value_leftpad, value_stripZeros, hr]
      · rw [drop_components _ hw₁, value_leftpad, value_stripZeros, hs]
    rw [hsig.eq, ← hrs]
    exact ecdsaSignatureToRs_integers (by omega) hsig.short₁ hsig.short₂ hw₁ hw₂

/-- A redundant zero in `r`, read at the widths 1 and 3. -/
theorem ecdsaSignatureToRs_widen_iff_padded :
    ecdsaSignatureToRs [0x02, 0x02, 0x00, 0x05, 0x02, 0x01, 0x07] 1 = .ok [0x05, 0x07] ↔
      [(0x05 : UInt8), 0x07].length = 2 * 1 ∧
        ecdsaSignatureToRs [0x02, 0x02, 0x00, 0x05, 0x02, 0x01, 0x07] 3 =
          .ok (widen [0x05, 0x07] 1 3) :=
  ecdsaSignatureToRs_widen_iff _ _ 1 3 (by decide) (by decide) (by decide)

/-! ## Encoding -/

theorem short_natContent {rs : List UInt8} {n : Nat} (hn : 1 ≤ n) (hlen : rs.length = 2 * n)
    (hfit : FitsShortForm rs n) :
    ShortContent (natContent (value (rs.take n))) ∧
      ShortContent (natContent (value (rs.drop n))) := by
  have hne₁ : rs.take n ≠ [] := by
    apply List.ne_nil_of_length_pos
    rw [List.length_take]
    omega
  have hne₂ : rs.drop n ≠ [] := by
    apply List.ne_nil_of_length_pos
    rw [List.length_drop]
    omega
  rw [natContent_value hne₁, natContent_value hne₂]
  exact ⟨⟨length_minimalContent_pos hne₁, hfit.1⟩, ⟨length_minimalContent_pos hne₂, hfit.2⟩⟩

/-- Short encodings of pairs of numbers determine the pair. -/
theorem natInteger_append_inj {r s r' s' : Nat} (hr : ShortContent (natContent r))
    (hs : ShortContent (natContent s)) (hr' : ShortContent (natContent r'))
    (hs' : ShortContent (natContent s'))
    (h : natInteger r ++ natInteger s = natInteger r' ++ natInteger s') : r = r' ∧ s = s' := by
  obtain ⟨hfirst, hsecond⟩ := integer_append_inj hr hr' h
  have hlast : integer (natContent s) ++ [] = integer (natContent s') ++ [] := by
    rw [List.append_nil, List.append_nil]
    exact hsecond
  have hcontent := (integer_append_inj hs hs' hlast).1
  constructor
  · rw [← value_natContent r, ← value_natContent r', hfirst]
  · rw [← value_natContent s, ← value_natContent s', hcontent]

/-- **Encoding at two widths.** -/
theorem ecdsaSignatureFromRs_eq_iff (rs rs' : List UInt8) (n m : Nat) (hn : 1 ≤ n) (hm : 1 ≤ m)
    (hlen : rs.length = 2 * n) (hlen' : rs'.length = 2 * m) (hfit : FitsShortForm rs n)
    (hfit' : FitsShortForm rs' m) :
    ecdsaSignatureFromRs rs = ecdsaSignatureFromRs rs' ↔
      value (rs.take n) = value (rs'.take m) ∧ value (rs.drop n) = value (rs'.drop m) := by
  obtain ⟨hr, hs⟩ := short_natContent hn hlen hfit
  obtain ⟨hr', hs'⟩ := short_natContent hm hlen' hfit'
  rw [fromRs_natIntegers hn hlen, fromRs_natIntegers hm hlen', Outcome.ok.injEq]
  constructor
  · intro h
    exact natInteger_append_inj hr hs hr' hs' h
  · intro h
    rw [h.1, h.2]

/-- The components 5 and 128 in one octet each and in two. -/
theorem ecdsaSignatureFromRs_eq_iff_padded :
    ecdsaSignatureFromRs [0x05, 0x80] = ecdsaSignatureFromRs [0x00, 0x05, 0x00, 0x80] ↔
      value [0x05] = value [0x00, 0x05] ∧ value [0x80] = value [0x00, 0x80] :=
  ecdsaSignatureFromRs_eq_iff [0x05, 0x80] [0x00, 0x05, 0x00, 0x80] 1 2 (by decide) (by decide)
    rfl rfl (fitsShortForm_of_le rfl (by decide)) (fitsShortForm_of_le rfl (by decide))

end Trustm
