import Trustm.Support.BigEndian
import Trustm.Support.DerLength

/-!
# DER INTEGERs in the short length form

The encoding `02 len c` of a non-negative integer with content octets `c`.

* `ShortContent c`: the short form can announce `c` (between 1 and 127 octets).
* `integer c` is the element; two of them in a row are read back uniquely
  (`integer_append_inj`).
* `Canonical c` is the DER rule for a non-negative integer: the sign bit is clear and no
  leading zero octet is redundant. `minimalContent bs` is the canonical content with the
  value of `bs`, and `c` is canonical exactly when it is its own minimal content.
* `natInteger v` is the encoding of the number `v`: no other INTEGER with this two's complement
  value is as short, whatever form its length has (`IsInteger.eq_or_longer`).
-/

namespace Der

open BigEndian

/-- Content octets that the short length form can announce. -/
def ShortContent (c : List UInt8) : Prop := 1 ≤ c.length ∧ c.length ≤ 127

instance (c : List UInt8) : Decidable (ShortContent c) := inferInstanceAs (Decidable (_ ∧ _))

/-- The INTEGER element with content `c`; the length octet is reduced modulo 256. -/
def integer (c : List UInt8) : List UInt8 := 0x02 :: UInt8.ofNat c.length :: c

@[simp] theorem length_integer (c : List UInt8) : (integer c).length = 2 + c.length := by
  simp only [integer, List.length_cons]
  omega

theorem ShortContent.toNat_length {c : List UInt8} (h : ShortContent c) :
    (UInt8.ofNat c.length).toNat = c.length := by
  have := h.2
  rw [UInt8.toNat_ofNat']
  omega

theorem ShortContent.ne_nil {c : List UInt8} (h : ShortContent c) : c ≠ [] := by
  rintro rfl
  exact absurd h.1 (by simp)

/-- The length octet decides where the first element ends. -/
theorem integer_append_inj {c d xs ys : List UInt8} (hc : ShortContent c) (hd : ShortContent d)
    (h : integer c ++ xs = integer d ++ ys) : c = d ∧ xs = ys := by
  simp only [integer, List.cons_append, List.cons.injEq, true_and] at h
  obtain ⟨hlen, hrest⟩ := h
  apply List.append_inj hrest
  rw [← hc.toNat_length, ← hd.toNat_length, hlen]

/-! ## Canonical content -/

/-- The content of a non-negative integer in DER: the first octet is below `80`, and it is
`00` only when it stands alone or keeps the next octet from being read as a sign. -/
def Canonical : List UInt8 → Prop
  | [] => False
  | [b] => b < 0x80
  | b :: w :: _ => b < 0x80 ∧ (b = 0 → 0x80 ≤ w)

instance : ∀ c : List UInt8, Decidable (Canonical c)
  | [] => inferInstanceAs (Decidable False)
  | [b] => inferInstanceAs (Decidable (b < 0x80))
  | b :: w :: _ => inferInstanceAs (Decidable (b < 0x80 ∧ (b = 0 → 0x80 ≤ w)))

/-- A zero octet in front when the first octet has its top bit set. -/
def padSign : List UInt8 → List UInt8
  | [] => []
  | b :: ws => if 0x80 ≤ b then 0 :: b :: ws else b :: ws

/-- The shortest content of a non-negative integer with the value of `bs`. -/
def minimalContent (bs : List UInt8) : List UInt8 := padSign (stripZeros bs)

theorem zero_ne_of_top {b : UInt8} (h : 0x80 ≤ b) : b ≠ 0 := by
  rintro rfl
  exact absurd h (by decide)

/-- The top bit of an octet, read as a mask. -/
theorem and_top_ne_zero_iff (b : UInt8) : b &&& 0x80 ≠ 0 ↔ 0x80 ≤ b := by
  have hall : ∀ i : Fin 256, UInt8.ofNat i.val &&& 0x80 ≠ 0 ↔ 0x80 ≤ UInt8.ofNat i.val := by
    decide +kernel
  simpa using hall ⟨b.toNat, b.toNat_lt⟩

theorem padSign_ne_nil {v : List UInt8} (h : v ≠ []) : padSign v ≠ [] := by
  cases v with
  | nil => exact absurd rfl h
  | cons b ws =>
    simp only [padSign]
    split <;> simp

theorem value_padSign (v : List UInt8) : value (padSign v) = value v := by
  cases v with
  | nil => rfl
  | cons b ws =>
    simp only [padSign]
    split
    · exact value_zeros_append 1 (b :: ws)
    · rfl

@[simp] theorem value_minimalContent (bs : List UInt8) : value (minimalContent bs) = value bs := by
  rw [minimalContent, value_padSign, value_stripZeros]

theorem stripZeros_padSign {v : List UInt8} (h : Stripped v) : stripZeros (padSign v) = v := by
  match v, h with
  | [b], _ =>
    simp only [padSign]
    split
    · rw [stripZeros_zero_cons (by simp), stripZeros_singleton]
    · rfl
  | b :: w :: ws, h =>
    simp only [padSign]
    split
    · rw [stripZeros_zero_cons (by simp), stripZeros_cons_of_ne _ h]
    · exact stripZeros_cons_of_ne _ h

theorem stripZeros_minimalContent {bs : List UInt8} (h : bs ≠ []) :
    stripZeros (minimalContent bs) = stripZeros bs :=
  stripZeros_padSign (stripped_stripZeros h)

theorem canonical_padSign {v : List UInt8} (h : Stripped v) : Canonical (padSign v) := by
  match v, h with
  | [b], _ =>
    simp only [padSign]
    split
    · rename_i hb
      exact ⟨by decide, fun _ => hb⟩
    · rename_i hb
      exact UInt8.not_le.mp hb
  | b :: w :: ws, h =>
    simp only [padSign]
    split
    · rename_i hb
      exact ⟨by decide, fun _ => hb⟩
    · rename_i hb
      exact ⟨UInt8.not_le.mp hb, fun h0 => absurd h0 h⟩

theorem canonical_minimalContent {bs : List UInt8} (h : bs ≠ []) :
    Canonical (minimalContent bs) :=
  canonical_padSign (stripped_stripZeros h)

/-- Canonical content is the minimal content of itself. -/
theorem Canonical.minimalContent_eq {c : List UInt8} (h : Canonical c) :
    minimalContent c = c := by
  match c, h with
  | [b], h => simp [minimalContent, padSign, UInt8.not_le.mpr h]
  | b :: w :: ws, h =>
    obtain ⟨hb, hpad⟩ := h
    by_cases h0 : b = 0
    · subst h0
      have hw := hpad rfl
      rw [minimalContent, stripZeros_zero_cons (by simp),
        stripZeros_cons_of_ne ws (zero_ne_of_top hw)]
      simp [padSign, hw]
    · rw [minimalContent, stripZeros_cons_of_ne _ h0]
      simp [padSign, UInt8.not_le.mpr hb]

theorem minimalContent_eq_self_iff {c : List UInt8} (hc : c ≠ []) :
    minimalContent c = c ↔ Canonical c :=
  ⟨fun h => h ▸ canonical_minimalContent hc, Canonical.minimalContent_eq⟩

/-- The minimal content depends on the value only. -/
theorem minimalContent_congr {xs ys : List UInt8} (hx : xs ≠ []) (hy : ys ≠ [])
    (h : value xs = value ys) : minimalContent xs = minimalContent ys := by
  have hstrip : stripZeros xs = stripZeros ys :=
    (stripped_stripZeros hx).eq_of_value (stripped_stripZeros hy) (by simpa using h)
  rw [minimalContent, minimalContent, hstrip]

theorem Canonical.ne_nil {c : List UInt8} (h : Canonical c) : c ≠ [] := by
  rintro rfl
  exact h

/-- Canonical contents with one value are equal. -/
theorem Canonical.eq_of_value {c d : List UInt8} (hc : Canonical c) (hd : Canonical d)
    (h : value c = value d) : c = d := by
  rw [← hc.minimalContent_eq, ← hd.minimalContent_eq, minimalContent_congr hc.ne_nil hd.ne_nil h]

theorem length_minimalContent_pos {bs : List UInt8} (h : bs ≠ []) :
    1 ≤ (minimalContent bs).length :=
  List.length_pos_iff.mpr (padSign_ne_nil (stripZeros_ne_nil h))

theorem length_minimalContent_le (bs : List UInt8) :
    (minimalContent bs).length ≤ bs.length + 1 := by
  have hstrip := stripZeros_length_le bs
  have hpad : (padSign (stripZeros bs)).length ≤ (stripZeros bs).length + 1 := by
    cases stripZeros bs with
    | nil => simp [padSign]
    | cons b ws =>
      simp only [padSign]
      split <;> simp
  exact hpad.trans (by omega)

/-! ## The shortest encoding of a number -/

/-- The two's complement value of content octets. -/
def signedValue : List UInt8 → Int
  | [] => 0
  | b :: bs =>
    if b < 0x80 then value (b :: bs) else (value (b :: bs) : Int) - (256 ^ (bs.length + 1) : Nat)

theorem signedValue_of_lt {b : UInt8} (h : b < 0x80) (bs : List UInt8) :
    signedValue (b :: bs) = value (b :: bs) := if_pos h

theorem lt_of_signedValue_nonneg {b : UInt8} {bs : List UInt8}
    (h : 0 ≤ signedValue (b :: bs)) : b < 0x80 := by
  by_contra hb
  rw [signedValue, if_neg hb] at h
  have hlt := value_lt (b :: bs)
  rw [List.length_cons] at hlt
  omega

theorem signedValue_of_canonical {c : List UInt8} (h : Canonical c) :
    signedValue c = value c := by
  match c, h with
  | [b], h => exact signedValue_of_lt h _
  | b :: w :: ws, h => exact signedValue_of_lt h.1 _

/-- Non-negative content is its own minimal content, or longer. -/
theorem eq_minimalContent_or_longer {b : UInt8} (hb : b < 0x80) (bs : List UInt8) :
    b :: bs = minimalContent (b :: bs) ∨
      (minimalContent (b :: bs)).length < (b :: bs).length := by
  induction bs generalizing b with
  | nil => exact Or.inl (Canonical.minimalContent_eq (c := [b]) hb).symm
  | cons w ws ih =>
    by_cases hpad : b = 0 → 0x80 ≤ w
    · exact Or.inl (Canonical.minimalContent_eq (c := b :: w :: ws) ⟨hb, hpad⟩).symm
    · obtain ⟨rfl, hw⟩ := Classical.not_imp.mp hpad
      have hmin : minimalContent (0 :: w :: ws) = minimalContent (w :: ws) := by
        rw [minimalContent, minimalContent, stripZeros_zero_cons (by simp)]
      rw [hmin]
      rcases ih (UInt8.not_le.mp hw) with heq | hlt
      · rw [← heq]
        exact Or.inr (by simp)
      · exact Or.inr (hlt.trans (by simp))

/-- The content of the number `v`. -/
def natContent (v : Nat) : List UInt8 :=
  minimalContent (0x00 :: (Nat.digits 256 v).reverse.map UInt8.ofNat)

theorem value_natContent (v : Nat) : value (natContent v) = v := by
  have hmap : ((Nat.digits 256 v).map UInt8.ofNat).map UInt8.toNat = Nat.digits 256 v := by
    rw [List.map_map]
    apply (List.map_congr_left fun d hd => ?_).trans (List.map_id _)
    have hlt := Nat.digits_lt_base (by omega) hd
    rw [Function.comp_apply, UInt8.toNat_ofNat']
    exact Nat.mod_eq_of_lt hlt
  rw [natContent, value_minimalContent, value_cons, List.map_reverse, value, List.map_reverse,
    List.reverse_reverse, hmap, Nat.ofDigits_digits]
  simp

theorem canonical_natContent (v : Nat) : Canonical (natContent v) :=
  canonical_minimalContent (by simp)

theorem natContent_value {bs : List UInt8} (h : bs ≠ []) :
    natContent (value bs) = minimalContent bs := by
  apply (canonical_natContent _).eq_of_value (canonical_minimalContent h)
  rw [value_natContent, value_minimalContent]

/-- `d` is an INTEGER element with the value `v`, with a length in any form. -/
def IsInteger (d : List UInt8) (v : Int) : Prop :=
  ∃ l c, LengthField l c.length ∧ c ≠ [] ∧ signedValue c = v ∧ d = 0x02 :: (l ++ c)

/-- The encoding of the number `v`. -/
def natInteger (v : Nat) : List UInt8 := integer (natContent v)

theorem isInteger_natInteger {v : Nat} (h : (natContent v).length ≤ 127) :
    IsInteger (natInteger v) v := by
  have hcan := canonical_natContent v
  have hshort : ShortContent (natContent v) := ⟨List.length_pos_iff.mpr hcan.ne_nil, h⟩
  have hfield : LengthField [UInt8.ofNat (natContent v).length] (natContent v).length := by
    have hlt : UInt8.ofNat (natContent v).length < 0x80 := by
      rw [UInt8.lt_iff_toNat_lt, hshort.toNat_length]
      exact Nat.lt_succ_of_le h
    have hshortField := LengthField.short hlt
    rwa [hshort.toNat_length] at hshortField
  refine ⟨_, _, hfield, hcan.ne_nil, ?_, rfl⟩
  rw [signedValue_of_canonical hcan, value_natContent]

/-- No other encoding of `v` is as short. -/
theorem IsInteger.eq_or_longer {d : List UInt8} {v : Nat} (h : IsInteger d v) :
    d = natInteger v ∨ (natInteger v).length < d.length := by
  obtain ⟨l, c, hl, hc, hvalue, rfl⟩ := h
  obtain ⟨b, bs, rfl⟩ := List.exists_cons_of_ne_nil hc
  have hb : b < 0x80 := lt_of_signedValue_nonneg (hvalue ▸ Int.natCast_nonneg v)
  have hv : value (b :: bs) = v := Int.ofNat.inj ((signedValue_of_lt hb bs).symm.trans hvalue)
  have hmin : natContent v = minimalContent (b :: bs) := hv ▸ natContent_value hc
  have hlen : (0x02 :: (l ++ b :: bs)).length = 1 + l.length + (b :: bs).length := by
    simp only [List.length_cons, List.length_append]
    omega
  have hpos := hl.length_pos
  rw [natInteger, length_integer, hlen, hmin]
  rcases eq_minimalContent_or_longer hb bs with heq | hlt
  · rw [← heq]
    by_cases hone : l.length = 1
    · rw [hl.eq_of_length_one hone]
      exact Or.inl rfl
    · exact Or.inr (by omega)
  · exact Or.inr (by omega)

end Der
