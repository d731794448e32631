import Trustm.Signature.Decode

/-!
# What the signature encoder emits

For a non-empty string of even length the encoder always answers `Ok`, with the minimal
content of each half behind a length octet that is cut to eight bits
(`ecdsaSignatureFromRs_even`). Whether the output is a pair of short-form INTEGERs is then a
question about the two content lengths only: `encoderSound_iff` shows that it is one exactly
when both are at most 127.

The bound is needed: the cast in `pushInteger` neither rejects nor fits longer contents, and
no choice of contents makes such an output well formed by accident
(`wellFormed_integers_iff`).
-/

namespace Trustm

open Outcome BigEndian Der

/-! ## One component -/

theorem pushInteger_eq (out : List UInt8) {part : List UInt8} (h : part ≠ []) :
    pushInteger out part = .ok (out ++ integer (minimalContent part)) := by
  unfold pushInteger minimalContent
  cases hv : stripZeros part with
  | nil => exact absurd hv (stripZeros_ne_nil h)
  | cons b ws =>
    by_cases hb : 0x80 ≤ b
    · have htop : b &&& 0x80 ≠ 0 := (and_top_ne_zero_iff b).mpr hb
      simp [htop, hb, padSign, integer]
    · have htop : ¬ b &&& 0x80 ≠ 0 := fun hne => hb ((and_top_ne_zero_iff b).mp hne)
      rw [not_not] at htop
      simp [htop, hb, padSign, integer]

/-! ## Both components -/

/-- The two halves the encoder works on. -/
def firstHalf (rs : List UInt8) : List UInt8 := rs.take (rs.length / 2)

def secondHalf (rs : List UInt8) : List UInt8 := rs.drop (rs.length / 2)

theorem firstHalf_ne_nil {rs : List UInt8} (h : rs ≠ []) (heven : rs.length % 2 = 0) :
    firstHalf rs ≠ [] := by
  have hpos : 0 < rs.length := List.length_pos_iff.mpr h
  apply List.ne_nil_of_length_pos
  simp only [firstHalf, List.length_take]
  omega

theorem secondHalf_ne_nil {rs : List UInt8} (h : rs ≠ []) : secondHalf rs ≠ [] := by
  have hpos : 0 < rs.length := List.length_pos_iff.mpr h
  apply List.ne_nil_of_length_pos
  simp only [secondHalf, List.length_drop]
  omega

/-- The encoder answers every non-empty string of even length, whatever its size. -/
theorem ecdsaSignatureFromRs_even {rs : List UInt8} (h : rs ≠ []) (heven : rs.length % 2 = 0) :
    ecdsaSignatureFromRs rs = .ok (integer (minimalContent (firstHalf rs)) ++
      integer (minimalContent (secondHalf rs))) := by
  unfold ecdsaSignatureFromRs
  have hguard : ¬ (rs.isEmpty = true ∨ rs.length % 2 ≠ 0) := by simp [h, heven]
  have h₁ := pushInteger_eq [] (firstHalf_ne_nil h heven)
  have h₂ := fun out => pushInteger_eq out (secondHalf_ne_nil h)
  simp only [firstHalf, secondHalf] at h₁ h₂ ⊢
  simp only [hguard, if_false, sliceTo_of_le (show rs.length / 2 ≤ rs.length by omega),
    sliceFrom_of_le (show rs.length / 2 ≤ rs.length by omega), ok_bind, List.foldlM_cons,
    List.foldlM_nil, h₁, h₂, List.nil_append, pure_eq]

theorem ecdsaSignatureFromRs_odd {rs : List UInt8} (h : rs = [] ∨ rs.length % 2 = 1) :
    (ecdsaSignatureFromRs rs).IsErr := by
  unfold ecdsaSignatureFromRs
  have hguard : rs.isEmpty = true ∨ rs.length % 2 ≠ 0 := by
    rcases h with rfl | h
    · exact Or.inl rfl
    · exact Or.inr (by omega)
  simp only [hguard, if_true, err_bind, isErr_err]

/-! ## Well-formed output -/

/-- Two INTEGERs of DER in the short length form: each length octet is the number of content
octets behind it and below `80`, and each content is the shortest non-negative one. -/
def WellFormed (d : List UInt8) : Prop :=
  ∃ c₁ c₂, TwoIntegers d c₁ c₂ ∧ Canonical c₁ ∧ Canonical c₂

/-- Both components have a content that the short length form can announce. -/
def Encodable (rs : List UInt8) : Prop :=
  ShortContent (minimalContent (firstHalf rs)) ∧ ShortContent (minimalContent (secondHalf rs))

instance (rs : List UInt8) : Decidable (Encodable rs) := inferInstanceAs (Decidable (_ ∧ _))

/-- A length octet that was cut cannot be hidden: the whole string would be too long for two
short contents. -/
theorem short_of_twoIntegers {c₁ c₂ d₁ d₂ : List UInt8}
    (h : TwoIntegers (integer c₁ ++ integer c₂) d₁ d₂) : ShortContent c₁ ∧ ShortContent c₂ := by
  have hd₁ := h.short₁
  have hd₂ := h.short₂
  have htotal := congrArg List.length h.eq
  simp only [List.length_append, length_integer] at htotal
  have hhead : UInt8.ofNat c₁.length = UInt8.ofNat d₁.length := by
    have := h.eq
    simp only [integer, List.cons_append, List.cons.injEq] at this
    exact this.2.1
  have hoctet := congrArg UInt8.toNat hhead
  rw [hd₁.toNat_length, UInt8.toNat_ofNat'] at hoctet
  obtain ⟨hpos₁, hmax₁⟩ := hd₁
  obtain ⟨hpos₂, hmax₂⟩ := hd₂
  have hlen₁ : c₁.length = d₁.length := by omega
  exact ⟨⟨by omega, by omega⟩, ⟨by omega, by omega⟩⟩

theorem wellFormed_integers_iff {c₁ c₂ : List UInt8} (h₁ : Canonical c₁) (h₂ : Canonical c₂) :
    WellFormed (integer c₁ ++ integer c₂) ↔ ShortContent c₁ ∧ ShortContent c₂ := by
  constructor
  · rintro ⟨d₁, d₂, hd, -, -⟩
    exact short_of_twoIntegers hd
  · rintro ⟨hs₁, hs₂⟩
    exact ⟨c₁, c₂, ⟨rfl, hs₁, hs₂⟩, h₁, h₂⟩

theorem wellFormed_of_even_iff {rs d : List UInt8} (h : rs ≠ []) (heven : rs.length % 2 = 0)
    (hd : ecdsaSignatureFromRs rs = .ok d) : WellFormed d ↔ Encodable rs := by
  rw [ecdsaSignatureFromRs_even h heven] at hd
  rw [← Outcome.ok.inj hd]
  exact wellFormed_integers_iff (canonical_minimalContent (firstHalf_ne_nil h heven))
    (canonical_minimalContent (secondHalf_ne_nil h))

/-- The encoder never emits a malformed signature for `rs`: what it returns is well formed,
and components that have no short-form encoding are an error. -/
def EncoderSound (rs : List UInt8) : Prop :=
  (∀ d, ecdsaSignatureFromRs rs = .ok d → WellFormed d) ∧
    (rs ≠ [] → rs.length % 2 = 0 → ¬ Encodable rs → (ecdsaSignatureFromRs rs).IsErr)

/-- The strings the encoder treats soundly: those it rejects for their length, and those
whose components both need at most 127 content octets. -/
def SmallComponents (rs : List UInt8) : Prop :=
  rs = [] ∨ rs.length % 2 = 1 ∨ Encodable rs

theorem smallComponents_of_wellFormed {rs : List UInt8}
    (h : ∀ d, ecdsaSignatureFromRs rs = .ok d → WellFormed d) : SmallComponents rs := by
  by_cases hne : rs = []
  · exact Or.inl hne
  · by_cases hodd : rs.length % 2 = 1
    · exact Or.inr (Or.inl hodd)
    · have heven : rs.length % 2 = 0 := by omega
      have hok := ecdsaSignatureFromRs_even hne heven
      exact Or.inr (Or.inr ((wellFormed_of_even_iff hne heven hok).mp (h _ hok)))

/-- **When the encoder is sound.** The second equivalence says more than the first: every
other string is not just left unrejected but turned into a malformed signature. -/
theorem encoderSound_iff (rs : List UInt8) :
    (EncoderSound rs ↔ SmallComponents rs) ∧
      ((∀ d, ecdsaSignatureFromRs rs = .ok d → WellFormed d) ↔ SmallComponents rs) := by
  have hwf : SmallComponents rs → ∀ d, ecdsaSignatureFromRs rs = .ok d → WellFormed d := by
    intro hsmall d hd
    by_cases hlen : rs = [] ∨ rs.length % 2 = 1
    · obtain ⟨e, he⟩ := ecdsaSignatureFromRs_odd hlen
      rw [he] at hd
      cases hd
    · have hne : rs ≠ [] := fun h => hlen (Or.inl h)
      have heven : rs.length % 2 = 0 := by
        have : ¬ rs.length % 2 = 1 := fun h => hlen (Or.inr h)
        omega
      rcases hsmall with h | h | h
      · exact absurd h hne
      · exact absurd (Or.inr h) hlen
      · exact (wellFormed_of_even_iff hne heven hd).mpr h
  refine ⟨⟨fun h => smallComponents_of_wellFormed h.1, fun h => ⟨hwf h, ?_⟩⟩,
    ⟨smallComponents_of_wellFormed, hwf⟩⟩
  intro hne heven hlong
  rcases h with h | h | h
  · exact absurd h hne
  · omega
  · exact absurd h hlong

/-- Two components of 128 bytes `01`: both length octets come out as `80`. -/
theorem not_encoderSound_wide : ¬ EncoderSound (List.replicate 256 0x01) := by
  intro h
  have hhalf : firstHalf (List.replicate 256 0x01) = 0x01 :: List.replicate 127 0x01 := by
    rw [firstHalf, List.length_replicate, List.take_replicate, ← List.replicate_succ]
    rfl
  have hcontent : (minimalContent (firstHalf (List.replicate 256 0x01))).length = 128 := by
    rw [hhalf, minimalContent, stripZeros_cons_of_ne _ (by decide)]
    rfl
  rcases smallComponents_of_wellFormed h.1 with h | h | h
  · exact absurd (congrArg List.length h) (by rw [List.length_replicate]; decide)
  · rw [List.length_replicate] at h
    omega
  · have hmax := h.1.2
    omega

end Trustm
