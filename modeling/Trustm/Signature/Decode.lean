import Trustm.Signature.Codec
import Trustm.Support.DerInteger

/-!
# What the signature decoder accepts

`derUintInto` reads one INTEGER exactly when the buffer starts with one in the short form
whose value fits the slice (`derUintInto_integer`, `derUintInto_cases`), and fills the slice
with the stripped content, padded on the left. Chaining it twice gives the grammar of
`ecdsaSignatureToRs`: two INTEGERs and nothing after them.

The width check of the source is made on the stripped content; `stripZeros_length_le_iff`
turns it into a bound on the value.
-/

namespace Trustm

open Outcome BigEndian Der

/-- `sig` is `02 L₁ c₁ 02 L₂ c₂` with both contents in the short length form. -/
structure TwoIntegers (sig c₁ c₂ : List UInt8) : Prop where
  eq : sig = integer c₁ ++ integer c₂
  short₁ : ShortContent c₁
  short₂ : ShortContent c₂

theorem TwoIntegers.unique {sig c₁ c₂ d₁ d₂ : List UInt8} (hc : TwoIntegers sig c₁ c₂)
    (hd : TwoIntegers sig d₁ d₂) : c₁ = d₁ ∧ c₂ = d₂ := by
  have h₁ := integer_append_inj hc.short₁ hd.short₁ (hc.eq.symm.trans hd.eq)
  have h₂ : integer c₂ ++ [] = integer d₂ ++ [] := by rw [h₁.2]
  exact ⟨h₁.1, (integer_append_inj hc.short₂ hd.short₂ h₂).1⟩

/-! ## One INTEGER -/

theorem copy_padded (k : Nat) (v : List UInt8) (h : v.length ≤ k) :
    (copyFromSlice ((List.replicate k (0 : UInt8)).drop (k - v.length)) v :
      Outcome Error (List UInt8)) = .ok v := by
  apply copyFromSlice_of_length
  simp only [List.length_drop, List.length_replicate]
  omega

theorem take_padded (k : Nat) (v : List UInt8) :
    (List.replicate k (0 : UInt8)).take (k - v.length) ++ v = v.leftpad k 0 := by
  simp only [List.leftpad, List.take_replicate]
  congr 2
  omega

/-- An INTEGER in front whose content fits is read, whatever follows it. -/
theorem derUintInto_integer {c : List UInt8} (hc : ShortContent c) (out : List UInt8)
    (hw : (stripZeros c).length ≤ out.length) (rest : List UInt8) :
    derUintInto (integer c ++ rest) out =
      .ok (2 + c.length, (stripZeros c).leftpad out.length 0) := by
  obtain ⟨hpos, hmax⟩ := hc
  have hlen : (UInt8.ofNat c.length).toNat = c.length := ShortContent.toNat_length ⟨hpos, hmax⟩
  have hbuf : (integer c ++ rest).length = 2 + c.length + rest.length := by simp
  have hslice : (slice (integer c ++ rest) 2 (2 + c.length) : Outcome Error (List UInt8)) =
      .ok c := by
    rw [slice_of_le (by omega) (by omega), show 2 + c.length = c.length + 2 by omega]
    simp [integer]
  have hfrom : (sliceFrom (List.replicate out.length (0 : UInt8))
      (out.length - (stripZeros c).length) : Outcome Error (List UInt8)) =
      .ok ((List.replicate out.length 0).drop (out.length - (stripZeros c).length)) :=
    sliceFrom_of_le (by simp)
  have h1 : ¬ (integer c ++ rest).length < 2 := by omega
  have h2 : ¬ (c.length = 0 ∨ c.length ≥ 0x80 ∨ (integer c ++ rest).length < 2 + c.length) := by
    omega
  have h3 : ¬ (stripZeros c).length > out.length := by omega
  have hidx0 : (index (integer c ++ rest) 0 : Outcome Error UInt8) = .ok 0x02 := rfl
  have hidx1 : (index (integer c ++ rest) 1 : Outcome Error UInt8) =
      .ok (UInt8.ofNat c.length) := rfl
  unfold derUintInto
  simp only [hidx0, hidx1, hlen, h1, h2, h3, if_false, ok_bind, pure_eq, ne_eq, not_true_eq_false,
    hslice, List.length_replicate, sub_of_le hw, hfrom, copy_padded _ _ hw, take_padded]

/-- Any other buffer is an error; in particular no step reads out of bounds. -/
theorem derUintInto_cases (buf out : List UInt8) :
    (∃ c rest, buf = integer c ++ rest ∧ ShortContent c ∧
      (stripZeros c).length ≤ out.length) ∨ (derUintInto buf out).IsErr := by
  match buf with
  | [] => exact Or.inr (by simp [derUintInto])
  | [b] => exact Or.inr (by simp [derUintInto])
  | b :: l :: t =>
    by_cases hb : b = 0x02
    · by_cases hl : l.toNat = 0 ∨ l.toNat ≥ 0x80 ∨ (b :: l :: t).length < 2 + l.toNat
      · apply Or.inr
        unfold derUintInto
        simp only [List.length_cons] at hl
        simp [hb, hl]
      · have hsplit : b :: l :: t = integer (t.take l.toNat) ++ t.drop l.toNat := by
          simp only [List.length_cons] at hl
          have hmin : min l.toNat t.length = l.toNat := by omega
          simp [integer, hb, hmin]
        have hc : ShortContent (t.take l.toNat) := by
          simp only [List.length_cons] at hl
          simp only [ShortContent, List.length_take]
          omega
        by_cases hw : (stripZeros (t.take l.toNat)).length ≤ out.length
        · exact Or.inl ⟨_, _, hsplit, hc, hw⟩
        · apply Or.inr
          simp only [List.length_cons] at hl
          have hslice : (slice (b :: l :: t) 2 (2 + l.toNat) : Outcome Error (List UInt8)) =
              .ok (t.take l.toNat) := by
            rw [slice_of_le (by omega) (by simp only [List.length_cons]; omega),
              show 2 + l.toNat = l.toNat + 2 by omega]
            simp
          have hgt : (stripZeros (t.take l.toNat)).length > out.length := by omega
          subst hb
          unfold derUintInto
          simp [hl, hslice, hgt]
    · apply Or.inr
      simp [derUintInto, hb]

/-! ## Two INTEGERs -/

theorem length_leftpad_of_le {v : List UInt8} {n : Nat} (h : v.length ≤ n) :
    (v.leftpad n 0).length = n := by
  rw [List.length_leftpad, Nat.max_eq_left h]

theorem value_leftpad (v : List UInt8) (n : Nat) : value (v.leftpad n 0) = value v :=
  value_zeros_append _ v

/-- The output of the decoder for accepted contents. -/
def components (n : Nat) (c₁ c₂ : List UInt8) : List UInt8 :=
  (stripZeros c₁).leftpad n 0 ++ (stripZeros c₂).leftpad n 0

theorem sliceTo_zeroed (n : Nat) :
    (sliceTo (List.replicate (n * 2) (0 : UInt8)) n : Outcome Error (List UInt8)) =
      .ok (List.replicate n 0) := by
  rw [sliceTo_of_le (by simp only [List.length_replicate]; omega), List.take_replicate]
  congr 2
  omega

theorem sliceFrom_zeroed {r : List UInt8} {n : Nat} (h : r.length = n) :
    (sliceFrom (r ++ (List.replicate (n * 2) (0 : UInt8)).drop n) n :
      Outcome Error (List UInt8)) = .ok (List.replicate n 0) := by
  rw [sliceFrom_of_le (by simp only [List.length_append]; omega), List.drop_left' h,
    List.drop_replicate]
  congr 2
  omega

theorem sliceFrom_integer (c rest : List UInt8) :
    (sliceFrom (integer c ++ rest) (2 + c.length) : Outcome Error (List UInt8)) = .ok rest := by
  rw [sliceFrom_of_le (by simp), List.drop_left' (length_integer c)]

/-- Behind an accepted first INTEGER only the rest of the input matters. -/
theorem ecdsaSignatureToRs_first {c₁ : List UInt8} {n : Nat} (halloc : 2 * n ≤ isizeMax)
    (hc₁ : ShortContent c₁) (hw₁ : (stripZeros c₁).length ≤ n) (rest : List UInt8) :
    ecdsaSignatureToRs (integer c₁ ++ rest) n = do
      let (usedS, s) ← derUintInto rest (List.replicate n 0)
      if 2 + c₁.length + usedS ≠ (integer c₁ ++ rest).length then
        .err (.badData "trailing bytes after signature")
      return (stripZeros c₁).leftpad n 0 ++ s := by
  have hlen : ((stripZeros c₁).leftpad n 0).length = n := length_leftpad_of_le hw₁
  have hr := derUintInto_integer hc₁ (List.replicate n 0) (by simpa using hw₁) rest
  simp only [List.length_replicate] at hr
  unfold ecdsaSignatureToRs
  simp only [vec_of_le (Nat.mul_comm n 2 ▸ halloc), sliceTo_zeroed, hr, sliceFrom_zeroed hlen,
    sliceFrom_integer, ok_bind, List.take_left' hlen]

theorem ecdsaSignatureToRs_integers {c₁ c₂ : List UInt8} {n : Nat} (halloc : 2 * n ≤ isizeMax)
    (hc₁ : ShortContent c₁) (hc₂ : ShortContent c₂) (hw₁ : (stripZeros c₁).length ≤ n)
    (hw₂ : (stripZeros c₂).length ≤ n) :
    ecdsaSignatureToRs (integer c₁ ++ integer c₂) n = .ok (components n c₁ c₂) := by
  have hs := derUintInto_integer hc₂ (List.replicate n 0) (by simpa using hw₂) []
  rw [List.append_nil, List.length_replicate] at hs
  rw [ecdsaSignatureToRs_first halloc hc₁ hw₁, hs]
  simp [components]

/-- Everything else the decoder answers with an error. -/
theorem ecdsaSignatureToRs_cases (sig : List UInt8) {n : Nat} (halloc : 2 * n ≤ isizeMax) :
    (∃ c₁ c₂, TwoIntegers sig c₁ c₂ ∧ (stripZeros c₁).length ≤ n ∧ (stripZeros c₂).length ≤ n) ∨
      (ecdsaSignatureToRs sig n).IsErr := by
  rcases derUintInto_cases sig (List.replicate n 0) with ⟨c₁, rest, rfl, hc₁, hw₁⟩ | ⟨e, he⟩
  · rw [List.length_replicate] at hw₁
    rcases derUintInto_cases rest (List.replicate n 0) with ⟨c₂, junk, rfl, hc₂, hw₂⟩ | ⟨e, he⟩
    · rw [List.length_replicate] at hw₂
      by_cases hjunk : junk = []
      · subst hjunk
        exact Or.inl ⟨c₁, c₂, ⟨by rw [List.append_nil], hc₁, hc₂⟩, hw₁, hw₂⟩
      · apply Or.inr
        have hs := derUintInto_integer hc₂ (List.replicate n 0) (by simpa using hw₂) junk
        have hpos : 0 < junk.length := List.length_pos_iff.mpr hjunk
        have hne : 2 + c₁.length + (2 + c₂.length) ≠
            (integer c₁ ++ (integer c₂ ++ junk)).length := by
          simp only [List.length_append, length_integer]
          omega
        rw [ecdsaSignatureToRs_first halloc hc₁ hw₁, hs, ok_bind]
        simp only [hne, ne_eq, not_false_eq_true, if_true, err_bind, isErr_err]
    · refine Or.inr ⟨e, ?_⟩
      rw [ecdsaSignatureToRs_first halloc hc₁ hw₁, he, err_bind]
  · refine Or.inr ⟨e, ?_⟩
    unfold ecdsaSignatureToRs
    rw [vec_of_le (Nat.mul_comm n 2 ▸ halloc), ok_bind, sliceTo_zeroed, ok_bind, he, err_bind]

/-- An answer `Ok` comes from two INTEGERs of the right width and is their components. -/
theorem eq_components_of_ok {sig out : List UInt8} {n : Nat}
    (h : ecdsaSignatureToRs sig n = .ok out) :
    2 * n ≤ isizeMax ∧ ∃ c₁ c₂, TwoIntegers sig c₁ c₂ ∧ (stripZeros c₁).length ≤ n ∧
      (stripZeros c₂).length ≤ n ∧ out = components n c₁ c₂ := by
  have halloc : 2 * n ≤ isizeMax := by
    unfold ecdsaSignatureToRs at h
    cases hvec : (vec 0 (n * 2) : Outcome Error (List UInt8)) with
    | ok xs => exact Nat.mul_comm n 2 ▸ vec_eq_ok hvec
    | err e => rw [hvec] at h; cases h
    | panic => rw [hvec] at h; cases h
  refine ⟨halloc, ?_⟩
  rcases ecdsaSignatureToRs_cases sig halloc with ⟨c₁, c₂, hsig, hw₁, hw₂⟩ | ⟨e, he⟩
  · refine ⟨c₁, c₂, hsig, hw₁, hw₂, ?_⟩
    rw [hsig.eq, ecdsaSignatureToRs_integers halloc hsig.short₁ hsig.short₂ hw₁ hw₂] at h
    exact (Outcome.ok.inj h).symm
  · rw [he] at h
    cases h

theorem length_components {n : Nat} {c₁ c₂ : List UInt8} (hw₁ : (stripZeros c₁).length ≤ n)
    (hw₂ : (stripZeros c₂).length ≤ n) : (components n c₁ c₂).length = 2 * n := by
  rw [components, List.length_append, length_leftpad_of_le hw₁, length_leftpad_of_le hw₂]
  omega

theorem take_components {n : Nat} {c₁ : List UInt8} (c₂ : List UInt8)
    (hw₁ : (stripZeros c₁).length ≤ n) :
    (components n c₁ c₂).take n = (stripZeros c₁).leftpad n 0 :=
  List.take_left' (length_leftpad_of_le hw₁)

theorem drop_components {n : Nat} {c₁ : List UInt8} (c₂ : List UInt8)
    (hw₁ : (stripZeros c₁).length ≤ n) :
    (components n c₁ c₂).drop n = (stripZeros c₂).leftpad n 0 :=
  List.drop_left' (length_leftpad_of_le hw₁)

/-- The grammar of accepted signatures for components of `n` bytes. -/
def Accepts (sig : List UInt8) (n : Nat) : Prop :=
  ∃ c₁ c₂, TwoIntegers sig c₁ c₂ ∧ value c₁ < 256 ^ n ∧ value c₂ < 256 ^ n

/-- **Exact grammar and value of the decoder.** -/
theorem ecdsaSignatureToRs_spec (sig : List UInt8) (n : Nat) (hn : 1 ≤ n)
    (halloc : 2 * n ≤ isizeMax) :
    ((∃ out, ecdsaSignatureToRs sig n = .ok out) ↔ Accepts sig n) ∧
      (∀ out c₁ c₂, ecdsaSignatureToRs sig n = .ok out → TwoIntegers sig c₁ c₂ →
        out.length = 2 * n ∧ value (out.take n) = value c₁ ∧ value (out.drop n) = value c₂) ∧
      (¬ Accepts sig n → (ecdsaSignatureToRs sig n).IsErr) := by
  have hfit : ∀ c, ShortContent c → ((stripZeros c).length ≤ n ↔ value c < 256 ^ n) :=
    fun c hc => stripZeros_length_le_iff hc.ne_nil hn
  refine ⟨⟨?_, ?_⟩, ?_, ?_⟩
  · rintro ⟨out, hout⟩
    obtain ⟨-, c₁, c₂, hsig, hw₁, hw₂, -⟩ := eq_components_of_ok hout
    exact ⟨c₁, c₂, hsig, (hfit c₁ hsig.short₁).mp hw₁, (hfit c₂ hsig.short₂).mp hw₂⟩
  · rintro ⟨c₁, c₂, hsig, hv₁, hv₂⟩
    rw [hsig.eq]
    exact ⟨_, ecdsaSignatureToRs_integers halloc hsig.short₁ hsig.short₂
      ((hfit c₁ hsig.short₁).mpr hv₁) ((hfit c₂ hsig.short₂).mpr hv₂)⟩
  · intro out c₁ c₂ hout hsig
    obtain ⟨-, d₁, d₂, hsig', hw₁, hw₂, rfl⟩ := eq_components_of_ok hout
    obtain ⟨rfl, rfl⟩ := hsig.unique hsig'
    refine ⟨length_components hw₁ hw₂, ?_, ?_⟩
    · rw [take_components _ hw₁, value_leftpad, value_stripZeros]
    · rw [drop_components _ hw₁, value_leftpad, value_stripZeros]
  · intro hno
    rcases ecdsaSignatureToRs_cases sig halloc with ⟨c₁, c₂, hsig, hw₁, hw₂⟩ | herr
    · exact absurd ⟨c₁, c₂, hsig, (hfit c₁ hsig.short₁).mp hw₁, (hfit c₂ hsig.short₂).mp hw₂⟩ hno
    · exact herr

/-- A signature with a redundant zero in `r`, read at width 2. -/
theorem ecdsaSignatureToRs_spec_padded :
    ∃ out, ecdsaSignatureToRs [0x02, 0x02, 0x00, 0x05, 0x02, 0x01, 0xff] 2 = .ok out :=
  (ecdsaSignatureToRs_spec [0x02, 0x02, 0x00, 0x05, 0x02, 0x01, 0xff] 2 (by decide)
    (by decide)).1.mpr ⟨[0x00, 0x05], [0xff], ⟨rfl, by decide, by decide⟩, by decide, by decide⟩

end Trustm
