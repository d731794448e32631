import Trustm.Support.DerLength
import Trustm.Support.Outcome
import Trustm.Types

/-!
# The public-key unwrapper

`der_len` and `ecc_public_key_point` of `lib.rs`, and what they accept.

* `derLen` reads the length of the element at the front of a buffer, in the short form and
  in the `81` and `82` forms (`derLen_eq_some_iff`).
* `eccPublicKeyPoint` returns a bare point as it is and takes the content of a complete BIT
  STRING without its first octet (`eccPublicKeyPoint_spec`).

The unwrapper computes the length of the header a second time, from the first length octet
alone; `header_length` says that the two computations agree.
-/

namespace Trustm

open Outcome Der

/-- Total length of a DER element at the start of `buf`. -/
def derLen (buf : List UInt8) : Option Nat := do
  let l ← buf[1]?
  if l ≤ 0x7F then return 2 + l.toNat
  if l = 0x81 then return 3 + (← buf[2]?).toNat
  if l = 0x82 then return 4 + ((← buf[2]?).toNat <<< 8 ||| (← buf[3]?).toNat)
  none

def eccPublicKeyPoint (der : List UInt8) : Outcome Error (List UInt8) := do
  if der.head? = some 0x04 then return der
  if der.head? = some 0x03 then
    let total ← okOr (derLen der) (.badData "public key length")
    if total ≠ der.length then .err (.badData "public key length")
    let first ← index der 1
    let hdr := (← sub total der.length) +
      if first < 0x80 then 2 else 2 + (first &&& 0x7F).toNat
    -- one "unused bits" byte follows the length, then the point
    let point ← okOr (getFrom der (hdr + 1)) (.badData "public key too short")
    if point.head? ≠ some 0x04 then .err (.badData "public key is not an uncompressed point")
    return point
  .err (.badData "public key encoding")

/-! ## Lengths -/

theorem derLen_of_field {l rest : List UInt8} {v : Nat} (tag : UInt8) (h : LengthField l v) :
    derLen (tag :: (l ++ rest)) = some (1 + l.length + v) := by
  cases h with
  | @short l h =>
    have hle : l ≤ 0x7F := by
      rw [UInt8.le_iff_toNat_le]
      have : l.toNat < 128 := UInt8.lt_iff_toNat_lt.mp h
      exact Nat.le_of_lt_succ this
    simp [derLen, hle]
  | long1 l => simp [derLen]
  | long2 h l =>
    have hor := Nat.shiftLeft_add_eq_or_of_lt (i := 8) l.toNat_lt h.toNat
    rw [Nat.shiftLeft_eq] at hor
    simp [derLen, ← hor, Nat.shiftLeft_eq]

/-- A length is read exactly when a length field stands behind the tag. -/
theorem derLen_eq_some_iff {buf : List UInt8} {n : Nat} :
    derLen buf = some n ↔ ∃ tag l rest v, buf = tag :: (l ++ rest) ∧ LengthField l v ∧
      n = 1 + l.length + v := by
  constructor
  · intro h
    have hfield : ∃ tag l rest v, buf = tag :: (l ++ rest) ∧ LengthField l v := by
      match buf with
      | [] => simp [derLen] at h
      | [tag] => simp [derLen] at h
      | tag :: l :: rest =>
        by_cases hshort : l ≤ 0x7F
        · have hlt : l < 0x80 := by
            rw [UInt8.le_iff_toNat_le] at hshort
            rw [UInt8.lt_iff_toNat_lt]
            exact Nat.lt_succ_of_le hshort
          exact ⟨tag, [l], rest, l.toNat, rfl, .short hlt⟩
        · by_cases h81 : l = 0x81
          · subst h81
            cases rest with
            | nil => simp [derLen] at h
            | cons a rest => exact ⟨tag, [0x81, a], rest, _, rfl, .long1 a⟩
          · by_cases h82 : l = 0x82
            · subst h82
              match rest with
              | [] => simp [derLen] at h
              | [a] => simp [derLen] at h
              | a :: b :: rest => exact ⟨tag, [0x82, a, b], rest, _, rfl, .long2 a b⟩
            · simp [derLen, hshort, h81, h82] at h
    obtain ⟨tag, l, rest, v, rfl, hl⟩ := hfield
    rw [derLen_of_field tag hl, Option.some.injEq] at h
    exact ⟨tag, l, rest, v, rfl, hl, h.symm⟩
  · rintro ⟨tag, l, rest, v, rfl, hl, rfl⟩
    exact derLen_of_field tag hl

/-- The unwrapper's own computation of the header length. -/
theorem header_length {l : List UInt8} {v : Nat} (h : LengthField l v) (tag : UInt8)
    (rest : List UInt8) :
    ∃ first, (index (tag :: (l ++ rest)) 1 : Outcome Error UInt8) = .ok first ∧
      (if first < 0x80 then 2 else 2 + (first &&& 0x7F).toNat) = 1 + l.length := by
  cases h with
  | @short l h => exact ⟨l, rfl, by rw [if_pos h]; rfl⟩
  | long1 l => exact ⟨0x81, rfl, rfl⟩
  | long2 h l => exact ⟨0x82, rfl, rfl⟩

/-! ## What the unwrapper accepts -/

/-- `der` is a complete BIT STRING with the unused-bits octet `u` and the content `p`. -/
def IsBitString (der : List UInt8) (u : UInt8) (p : List UInt8) : Prop :=
  ∃ l, LengthField l (1 + p.length) ∧ der = 0x03 :: (l ++ u :: p)

theorem IsBitString.unique {der p p' : List UInt8} {u u' : UInt8} (h : IsBitString der u p)
    (h' : IsBitString der u' p') : u = u' ∧ p = p' := by
  obtain ⟨l, hl, rfl⟩ := h
  obtain ⟨l', hl', heq⟩ := h'
  obtain ⟨-, -, hcontent⟩ := hl.append_inj hl' (List.cons.inj heq).2
  exact List.cons.inj hcontent

/-- The strings the unwrapper accepts, with what it returns. -/
def Unwraps (der p : List UInt8) : Prop :=
  p.head? = some 0x04 ∧ (p = der ∨ ∃ u, IsBitString der u p)

theorem eccPublicKeyPoint_bare {der : List UInt8} (h : der.head? = some 0x04) :
    eccPublicKeyPoint der = .ok der := by
  simp [eccPublicKeyPoint, h]

/-- Behind a complete header only the content matters. -/
theorem eccPublicKeyPoint_wrapped {l rest : List UInt8} {v : Nat} (hl : LengthField l v)
    (hv : rest.length = v) :
    eccPublicKeyPoint (0x03 :: (l ++ rest)) = do
      let point ← okOr (getFrom rest 1) (.badData "public key too short")
      if point.head? ≠ some 0x04 then
        .err (.badData "public key is not an uncompressed point")
      return point := by
  obtain ⟨first, hfirst, hheader⟩ := header_length hl 0x03 rest
  have hlen : (0x03 :: (l ++ rest)).length = 1 + l.length + v := by
    simp only [List.length_cons, List.length_append]
    omega
  have hget : getFrom (0x03 :: (l ++ rest)) (1 + l.length + 1) = getFrom rest 1 := by
    have hdrop : (0x03 :: (l ++ rest)).drop (1 + l.length + 1) = rest.drop 1 := by
      rw [Nat.add_comm 1, Nat.add_right_comm, List.drop_succ_cons, List.drop_append]
      simp
    have hiff : 1 + l.length + 1 ≤ (0x03 :: (l ++ rest)).length ↔ 1 ≤ rest.length := by omega
    simp only [getFrom, hdrop, hiff]
  unfold eccPublicKeyPoint
  simp only [List.head?_cons, derLen_of_field 0x03 hl, okOr_some, ok_bind, hlen, hfirst,
    sub_of_le (Nat.le_refl _), Nat.sub_self, Nat.zero_add, hheader, hget]
  simp

theorem eccPublicKeyPoint_of_unwraps {der p : List UInt8} (h : Unwraps der p) :
    eccPublicKeyPoint der = .ok p := by
  obtain ⟨hpoint, rfl | ⟨u, l, hl, rfl⟩⟩ := h
  · exact eccPublicKeyPoint_bare hpoint
  · have hlen : (u :: p).length = 1 + p.length := by
      rw [List.length_cons, Nat.add_comm]
    rw [eccPublicKeyPoint_wrapped hl hlen]
    simp [getFrom, hpoint]

/-- Everything else is an error; in particular no step reads out of bounds and the
subtraction does not underflow. -/
theorem eccPublicKeyPoint_cases (der : List UInt8) :
    (∃ p, Unwraps der p) ∨ (eccPublicKeyPoint der).IsErr := by
  by_cases h4 : der.head? = some 0x04
  · exact Or.inl ⟨der, h4, Or.inl rfl⟩
  · by_cases h3 : der.head? = some 0x03
    · cases hlen : derLen der with
      | none => exact Or.inr (by simp [eccPublicKeyPoint, h3, hlen])
      | some total =>
        obtain ⟨tag, l, rest, v, rfl, hl, rfl⟩ := derLen_eq_some_iff.mp hlen
        obtain rfl : tag = 0x03 := Option.some.inj h3
        by_cases hv : rest.length = v
        · rw [eccPublicKeyPoint_wrapped hl hv]
          cases rest with
          | nil => exact Or.inr (by simp [getFrom])
          | cons u p =>
            by_cases hpoint : p.head? = some 0x04
            · rw [List.length_cons, Nat.add_comm] at hv
              exact Or.inl ⟨p, hpoint, Or.inr ⟨u, l, hv ▸ hl, rfl⟩⟩
            · exact Or.inr (by simp [getFrom, hpoint])
        · have hne : 1 + l.length + v ≠ (0x03 :: (l ++ rest)).length := by
            simp only [List.length_cons, List.length_append]
            omega
          apply Or.inr
          simp only [eccPublicKeyPoint, if_neg h4, if_pos h3, hlen, okOr_some, ok_bind, if_pos hne,
            err_bind, isErr_err]
    · exact Or.inr (by simp [eccPublicKeyPoint, h4, h3])

theorem eccPublicKeyPoint_eq_ok_iff {der p : List UInt8} :
    eccPublicKeyPoint der = .ok p ↔ Unwraps der p := by
  constructor
  · intro h
    rcases eccPublicKeyPoint_cases der with ⟨q, hq⟩ | ⟨e, he⟩
    · rw [eccPublicKeyPoint_of_unwraps hq] at h
      exact Outcome.ok.inj h ▸ hq
    · rw [he] at h
      cases h
  · exact eccPublicKeyPoint_of_unwraps

/-- The wrapping of a point with the shortest length field. -/
def wrapPoint (p : List UInt8) : List UInt8 := 0x03 :: (lengthField (1 + p.length) ++ 0x00 :: p)

/-- **Exact acceptance of the unwrapper.** -/
theorem eccPublicKeyPoint_spec :
    (∀ der p, eccPublicKeyPoint der = .ok p ↔
      (der.head? = some 0x04 ∧ p = der) ∨
        ∃ u l, LengthField l (1 + p.length) ∧ der = 0x03 :: (l ++ u :: p) ∧
          p.head? = some 0x04) ∧
    (∀ der, (¬ ∃ p, eccPublicKeyPoint der = .ok p) → (eccPublicKeyPoint der).IsErr) ∧
    (∀ p, p.head? = some 0x04 → p.length ≤ 65534 → eccPublicKeyPoint (wrapPoint p) = .ok p) ∧
    ∀ der p, eccPublicKeyPoint der = .ok p → eccPublicKeyPoint p = .ok p := by
  refine ⟨?_, ?_, ?_, ?_⟩
  · intro der p
    rw [eccPublicKeyPoint_eq_ok_iff]
    constructor
    · rintro ⟨hpoint, rfl | ⟨u, l, hl, rfl⟩⟩
      · exact Or.inl ⟨hpoint, rfl⟩
      · exact Or.inr ⟨u, l, hl, rfl, hpoint⟩
    · rintro (⟨hpoint, rfl⟩ | ⟨u, l, hl, rfl, hpoint⟩)
      · exact ⟨hpoint, Or.inl rfl⟩
      · exact ⟨hpoint, Or.inr ⟨u, l, hl, rfl⟩⟩
  · intro der hnone
    rcases eccPublicKeyPoint_cases der with ⟨p, hp⟩ | herr
    · exact absurd ⟨p, eccPublicKeyPoint_of_unwraps hp⟩ hnone
    · exact herr
  · intro p hpoint hlen
    apply eccPublicKeyPoint_of_unwraps
    exact ⟨hpoint, Or.inr ⟨0x00, _, lengthField_spec (by omega), rfl⟩⟩
  · intro der p h
    exact eccPublicKeyPoint_bare (eccPublicKeyPoint_eq_ok_iff.mp h).1

/-- The point of a curve with 528-bit coordinates needs the `81` form. -/
theorem eccPublicKeyPoint_spec_p521 :
    eccPublicKeyPoint (wrapPoint (0x04 :: List.replicate 132 0xCD)) =
      .ok (0x04 :: List.replicate 132 0xCD) :=
  eccPublicKeyPoint_spec.2.2.1 _ rfl (by simp)

/-! ## Real points -/

/-- The documented shape `04 || x || y`. -/
def IsPoint (p : List UInt8) : Prop :=
  ∃ x y, p = 0x04 :: (x ++ y) ∧ x.length = y.length ∧ 1 ≤ x.length

theorem isPoint_cons_iff (t : List UInt8) :
    IsPoint (0x04 :: t) ↔ t ≠ [] ∧ t.length % 2 = 0 := by
  constructor
  · rintro ⟨x, y, heq, hlen, hpos⟩
    rw [(List.cons.inj heq).2]
    refine ⟨List.ne_nil_of_length_pos ?_, ?_⟩
    · rw [List.length_append]
      omega
    · rw [List.length_append]
      omega
  · rintro ⟨hne, heven⟩
    have hpos : 0 < t.length := List.length_pos_iff.mpr hne
    refine ⟨t.take (t.length / 2), t.drop (t.length / 2), ?_, ?_, ?_⟩
    · rw [List.take_append_drop]
    · rw [List.length_take, List.length_drop]
      omega
    · rw [List.length_take]
      omega

/-- What the unwrapper returns for `der` is a point, and a BIT STRING it came from has no
unused bits. -/
def OnlyRealPoints (der : List UInt8) : Prop :=
  ∀ p, eccPublicKeyPoint der = .ok p → IsPoint p ∧ ∀ u, IsBitString der u p → u = 0x00

/-- The strings the unwrapper should reject and does not: `04 t` with an empty or odd `t`,
alone or in a BIT STRING, and BIT STRINGs of `04 t` with unused bits. -/
def Misshapen (der : List UInt8) : Prop :=
  ∃ t, ((t = [] ∨ t.length % 2 = 1) ∧ (der = 0x04 :: t ∨ ∃ u, IsBitString der u (0x04 :: t))) ∨
    ∃ u, u ≠ 0x00 ∧ IsBitString der u (0x04 :: t)

theorem onlyRealPoints_iff (der : List UInt8) : OnlyRealPoints der ↔ ¬ Misshapen der := by
  constructor
  · rintro hreal ⟨t, ⟨hshape, hder⟩ | ⟨u, hu, hder⟩⟩
    · have hunwraps : Unwraps der (0x04 :: t) := ⟨rfl, hder.imp Eq.symm id⟩
      obtain ⟨hne, heven⟩ :=
        (isPoint_cons_iff t).mp (hreal _ (eccPublicKeyPoint_of_unwraps hunwraps)).1
      rcases hshape with hnil | hodd
      · exact hne hnil
      · omega
    · have hunwraps : Unwraps der (0x04 :: t) := ⟨rfl, Or.inr ⟨u, hder⟩⟩
      exact hu ((hreal _ (eccPublicKeyPoint_of_unwraps hunwraps)).2 u hder)
  · intro hok p hp
    obtain ⟨hpoint, hder⟩ := eccPublicKeyPoint_eq_ok_iff.mp hp
    obtain ⟨t, rfl⟩ := List.head?_eq_some_iff.mp hpoint
    refine ⟨(isPoint_cons_iff t).mpr ⟨?_, ?_⟩, ?_⟩
    · intro hnil
      exact hok ⟨t, Or.inl ⟨Or.inl hnil, hder.imp Eq.symm id⟩⟩
    · by_contra hodd
      exact hok ⟨t, Or.inl ⟨Or.inr (by omega), hder.imp Eq.symm id⟩⟩
    · intro u hu
      by_contra hne
      exact hok ⟨t, Or.inr ⟨u, hne, hu⟩⟩

/-- A lone `04` is returned as a point, and so is the content of a BIT STRING with seven unused
bits. -/
theorem not_onlyRealPoints_lone :
    ¬ OnlyRealPoints [0x04] ∧ ¬ OnlyRealPoints [0x03, 0x04, 0x07, 0x04, 0xAA, 0xBB] := by
  constructor
  · intro h
    have hpoint := (h [0x04] rfl).1
    exact ((isPoint_cons_iff []).mp hpoint).1 rfl
  · intro h
    have hunused := (h [0x04, 0xAA, 0xBB] rfl).2 0x07
    exact absurd (hunused ⟨[0x04], .short (by decide), rfl⟩) (by decide)

end Trustm
