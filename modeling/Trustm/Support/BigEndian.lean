import Mathlib.Data.Nat.Digits.Lemmas
import Mathlib.Data.UInt

/-!
# Big-endian byte strings

The unsigned value of a byte string, most significant byte first, and the removal of
redundant leading zeros.

* `value bs` is `Nat.ofDigits 256` of the reversed bytes; `value_append`, `value_lt` and
  `value_inj` are read off the digit lemmas.
* `stripZeros` drops leading zeros but always leaves one byte. `Stripped` names what it
  returns, and a stripped string is determined by its value (`Stripped.eq_of_value`).
* `stripZeros_length_le_iff`: a value fits in `n` bytes exactly when its stripped string does.
-/

namespace BigEndian

/-- The unsigned big-endian value of a byte string. -/
def value (bs : List UInt8) : Nat := Nat.ofDigits 256 (bs.map UInt8.toNat).reverse

@[simp] theorem value_nil : value [] = 0 := rfl

theorem value_append (xs ys : List UInt8) :
    value (xs ++ ys) = value xs * 256 ^ ys.length + value ys := by
  simp only [value, List.map_append, List.reverse_append, Nat.ofDigits_append, List.length_reverse,
    List.length_map]
  ring

@[simp] theorem value_singleton (b : UInt8) : value [b] = b.toNat := by simp [value]

theorem value_cons (b : UInt8) (bs : List UInt8) :
    value (b :: bs) = b.toNat * 256 ^ bs.length + value bs := by
  rw [← value_singleton, ← value_append]
  rfl

/-- The reversed bytes are base-256 digits. -/
theorem digit_lt (bs : List UInt8) : ∀ d ∈ (bs.map UInt8.toNat).reverse, d < 256 := by
  intro d hd
  obtain ⟨b, -, rfl⟩ := List.mem_map.mp (List.mem_reverse.mp hd)
  exact b.toNat_lt

theorem value_lt (bs : List UInt8) : value bs < 256 ^ bs.length := by
  simpa [value] using Nat.ofDigits_lt_base_pow_length (by omega) (digit_lt bs)

@[simp] theorem value_replicate_zero (k : Nat) : value (List.replicate k 0) = 0 := by
  induction k with
  | zero => rfl
  | succ k ih => rw [List.replicate_succ, value_cons, ih]; simp

theorem value_zeros_append (k : Nat) (bs : List UInt8) :
    value (List.replicate k 0 ++ bs) = value bs := by
  rw [value_append, value_replicate_zero, Nat.zero_mul, Nat.zero_add]

/-- Byte strings of one length are determined by their values. -/
theorem value_inj {xs ys : List UInt8} (hlen : xs.length = ys.length)
    (h : value xs = value ys) : xs = ys := by
  have hdigits := Nat.ofDigits_inj_of_len_eq (by omega) (by simpa using hlen) (digit_lt xs)
    (digit_lt ys) h
  exact List.map_injective_iff.mpr (fun _ _ => UInt8.toNat_inj.mp)
    (List.reverse_injective hdigits)

/-! ## Removing leading zeros -/

/-- Drop zeros from the front while more than one byte is left. -/
def stripZeros : List UInt8 → List UInt8
  | b :: w :: ws => if b = 0 then stripZeros (w :: ws) else b :: w :: ws
  | v => v

@[simp] theorem stripZeros_nil : stripZeros [] = [] := rfl

@[simp] theorem stripZeros_singleton (b : UInt8) : stripZeros [b] = [b] := rfl

theorem stripZeros_zero_cons {ws : List UInt8} (h : ws ≠ []) :
    stripZeros (0 :: ws) = stripZeros ws := by
  cases ws with
  | nil => exact absurd rfl h
  | cons w ws => simp [stripZeros]

theorem stripZeros_cons_of_ne {b : UInt8} (ws : List UInt8) (h : b ≠ 0) :
    stripZeros (b :: ws) = b :: ws := by
  cases ws with
  | nil => rfl
  | cons w ws => simp [stripZeros, h]

/-- What `stripZeros` removed was a run of zeros. -/
theorem eq_zeros_append_stripZeros (bs : List UInt8) :
    ∃ k, bs = List.replicate k 0 ++ stripZeros bs := by
  induction bs with
  | nil => exact ⟨0, rfl⟩
  | cons b ws ih =>
    by_cases hb : b = 0
    · by_cases hw : ws = []
      · exact ⟨0, by simp [hw]⟩
      · obtain ⟨k, hk⟩ := ih
        refine ⟨k + 1, ?_⟩
        rw [hb, stripZeros_zero_cons hw, List.replicate_succ, List.cons_append, ← hk]
    · exact ⟨0, by rw [stripZeros_cons_of_ne ws hb]; rfl⟩

theorem stripZeros_length_le (bs : List UInt8) : (stripZeros bs).length ≤ bs.length := by
  obtain ⟨k, hk⟩ := eq_zeros_append_stripZeros bs
  have := congrArg List.length hk
  simp only [List.length_append, List.length_replicate] at this
  omega

@[simp] theorem value_stripZeros (bs : List UInt8) : value (stripZeros bs) = value bs := by
  obtain ⟨k, hk⟩ := eq_zeros_append_stripZeros bs
  calc value (stripZeros bs) = value (List.replicate k 0 ++ stripZeros bs) :=
        (value_zeros_append k _).symm
    _ = value bs := by rw [← hk]

theorem stripZeros_ne_nil {bs : List UInt8} (h : bs ≠ []) : stripZeros bs ≠ [] := by
  induction bs with
  | nil => exact absurd rfl h
  | cons b ws ih =>
    by_cases hb : b = 0
    · by_cases hw : ws = []
      · simp [hw]
      · rw [hb, stripZeros_zero_cons hw]
        exact ih hw
    · simp [stripZeros_cons_of_ne ws hb]

/-- No redundant leading zero: a first byte `0` is the only byte. -/
def Stripped : List UInt8 → Prop
  | [] => False
  | [_] => True
  | b :: _ :: _ => b ≠ 0

theorem stripped_stripZeros {bs : List UInt8} (h : bs ≠ []) : Stripped (stripZeros bs) := by
  induction bs with
  | nil => exact absurd rfl h
  | cons b ws ih =>
    by_cases hb : b = 0
    · by_cases hw : ws = []
      · simp [hw, Stripped]
      · rw [hb, stripZeros_zero_cons hw]
        exact ih hw
    · rw [stripZeros_cons_of_ne ws hb]
      cases ws with
      | nil => trivial
      | cons w ws => exact hb

/-- A stripped string of at least two bytes has a large value. -/
theorem Stripped.pow_le_value {bs : List UInt8} (h : Stripped bs) (hlen : 2 ≤ bs.length) :
    256 ^ (bs.length - 1) ≤ value bs := by
  match bs, h, hlen with
  | b :: w :: ws, h, _ =>
    have hb : 1 ≤ b.toNat := by
      have : b.toNat ≠ 0 := fun h0 => h (UInt8.toNat_inj.mp h0)
      omega
    rw [value_cons]
    calc 256 ^ ((b :: w :: ws).length - 1) = 1 * 256 ^ (w :: ws).length := by simp
      _ ≤ b.toNat * 256 ^ (w :: ws).length := Nat.mul_le_mul_right _ hb
      _ ≤ _ := Nat.le_add_right _ _

/-- The length of a stripped string is the least width its value fits in. -/
theorem Stripped.length_le_iff {bs : List UInt8} (h : Stripped bs) {n : Nat} (hn : 1 ≤ n) :
    bs.length ≤ n ↔ value bs < 256 ^ n := by
  constructor
  · intro hle
    exact (value_lt bs).trans_le (Nat.pow_le_pow_right (by omega) hle)
  · intro hlt
    by_contra hgt
    have hpow : 256 ^ n ≤ 256 ^ (bs.length - 1) := Nat.pow_le_pow_right (by omega) (by omega)
    have := h.pow_le_value (by omega)
    omega

theorem stripZeros_length_le_iff {bs : List UInt8} (h : bs ≠ []) {n : Nat} (hn : 1 ≤ n) :
    (stripZeros bs).length ≤ n ↔ value bs < 256 ^ n := by
  rw [(stripped_stripZeros h).length_le_iff hn, value_stripZeros]

theorem Stripped.length_pos {bs : List UInt8} (h : Stripped bs) : 1 ≤ bs.length := by
  cases bs with
  | nil => exact h.elim
  | cons b ws => simp

/-- A stripped string is determined by its value. -/
theorem Stripped.eq_of_value {xs ys : List UInt8} (hx : Stripped xs) (hy : Stripped ys)
    (h : value xs = value ys) : xs = ys := by
  refine value_inj (Nat.le_antisymm ?_ ?_) h
  · rw [hx.length_le_iff hy.length_pos, h]
    exact value_lt ys
  · rw [hy.length_le_iff hx.length_pos, ← h]
    exact value_lt xs

end BigEndian
