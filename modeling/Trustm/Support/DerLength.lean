import Mathlib.Data.UInt

/-!
# DER length fields

A definite length in the short form, or in the long form with one or two length octets. The
long forms may announce a value that a shorter field could have announced.

* `LengthField l n`: the octets `l` are a field with the value `n`. A field is read off the
  front of a string in one way only (`LengthField.append_inj`).
* `lengthField n` is the field with the value `n` in the shortest form (`lengthField_spec`).
-/

namespace Der

inductive LengthField : List UInt8 → Nat → Prop
  | short {l : UInt8} (h : l < 0x80) : LengthField [l] l.toNat
  | long1 (l : UInt8) : LengthField [0x81, l] l.toNat
  | long2 (h l : UInt8) : LengthField [0x82, h, l] (h.toNat * 256 + l.toNat)

namespace LengthField

variable {l m xs ys : List UInt8} {n k : Nat}

theorem length_pos (h : LengthField l n) : 1 ≤ l.length := by
  cases h <;> simp

/-- A field of one octet is that of the short form. -/
theorem eq_of_length_one (h : LengthField l n) (h1 : l.length = 1) : l = [UInt8.ofNat n] := by
  cases h with
  | short h => rw [UInt8.ofNat_toNat]
  | long1 l => simp at h1
  | long2 h l => simp at h1

/-- The first octet decides how long the field is. -/
theorem append_inj (hl : LengthField l n) (hm : LengthField m k) (h : l ++ xs = m ++ ys) :
    l = m ∧ n = k ∧ xs = ys := by
  cases hl <;> cases hm <;>
    simp only [List.cons_append, List.nil_append, List.cons.injEq] at h
  case short.short => exact ⟨by rw [h.1], by rw [h.1], h.2⟩
  case long1.long1 => exact ⟨by rw [h.2.1], by rw [h.2.1], h.2.2⟩
  case long2.long2 => exact ⟨by rw [h.2.1, h.2.2.1], by rw [h.2.1, h.2.2.1], h.2.2.2⟩
  -- the first octets differ: a short form is below `80`
  all_goals
    obtain ⟨hfirst, _⟩ := h
    first
      | subst hfirst; contradiction
      | exact absurd hfirst (by decide)

end LengthField

/-- The field with the value `n`, which is below 65536, in the shortest form. -/
def lengthField (n : Nat) : List UInt8 :=
  if n < 128 then [UInt8.ofNat n]
  else if n < 256 then [0x81, UInt8.ofNat n]
  else [0x82, UInt8.ofNat (n / 256), UInt8.ofNat n]

theorem lengthField_spec {n : Nat} (h : n < 65536) : LengthField (lengthField n) n := by
  unfold lengthField
  split
  · have hn : (UInt8.ofNat n).toNat = n := by
      rw [UInt8.toNat_ofNat']
      omega
    have hlt : UInt8.ofNat n < 0x80 := by
      rw [UInt8.lt_iff_toNat_lt, hn]
      assumption
    have hfield := LengthField.short hlt
    rwa [hn] at hfield
  · split
    · have hfield := LengthField.long1 (UInt8.ofNat n)
      rwa [UInt8.toNat_ofNat', Nat.mod_eq_of_lt (by omega)] at hfield
    · have hfield := LengthField.long2 (UInt8.ofNat (n / 256)) (UInt8.ofNat n)
      rw [UInt8.toNat_ofNat', UInt8.toNat_ofNat'] at hfield
      have hvalue : n / 256 % 2 ^ 8 * 256 + n % 2 ^ 8 = n := by omega
      rwa [hvalue] at hfield

end Der
