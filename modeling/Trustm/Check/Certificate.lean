import Trustm.PublicKey.Point
import Trustm.Support.Search

/-!
# The factory certificate

`strip_cert_header` and `find_p256_spki` of `trustm-check`: the key of the chip is cut out of
the bytes of data object 0xE0E0, without a parser for certificates.

* `KeyAt der i`: at position `i` stands the prime256v1 OID with the header of a BIT STRING and
  a point behind it.
* `findP256Spki_of_firstAt`: the search looks at the first OID only, and asks for one byte more
  behind the header than the point has.
* `keySearchSound_iff` and `findsKey_iff` say what follows from these two facts.
-/

namespace Trustm

open Outcome Search

/-- 0xE0E0 holds the certificate bare, or behind nine bytes of the "TLS identity" header. -/
def stripCertHeader (raw : List UInt8) : Outcome Error (List UInt8) :=
  if raw.head? = some 0x30 then .ok raw
  else if raw.head? = some 0xC0 ∧ raw.length > 9 then sliceFrom raw 9
  else .err (.badData "unknown certificate framing")

/-- The OID prime256v1. -/
def OID : List UInt8 := [0x06, 0x08, 0x2A, 0x86, 0x48, 0xCE, 0x3D, 0x03, 0x01, 0x07]

/-- The first four bytes of a BIT STRING with an uncompressed P-256 point. -/
def spkiHeader : List UInt8 := [0x03, 0x42, 0x00, 0x04]

def findP256Spki (der : List UInt8) : Outcome Error (Option (List UInt8)) := do
  match (windows OID.length der).findIdx? (fun w => decide (w = OID)) with
  | none => return none
  | some i =>
    let rest ← sliceFrom der (i + OID.length)
    -- `rest[..4]` is evaluated only behind the length test
    if rest.length < 4 + 65 then return none
    if (← sliceTo rest 4) ≠ spkiHeader then return none
    return some (← slice rest 3 (3 + 65))

/-! ## The search -/

/-- OID, BIT STRING header and a whole point at position `i`. -/
def KeyAt (der : List UInt8) (i : Nat) : Prop :=
  OccursAt (OID ++ spkiHeader) der i ∧ i + 78 ≤ der.length

instance (der : List UInt8) (i : Nat) : Decidable (KeyAt der i) :=
  inferInstanceAs (Decidable (_ ∧ _))

/-- The 65 bytes of the point. -/
def keyBytes (der : List UInt8) (i : Nat) : List UInt8 := (der.drop (i + 13)).take 65

theorem keyAt_iff {der : List UInt8} {i : Nat} :
    KeyAt der i ↔ OccursAt OID der i ∧ OccursAt spkiHeader der (i + 10) ∧ i + 78 ≤ der.length := by
  rw [KeyAt, occursAt_join_iff, and_assoc]
  rfl

/-- The search stops at the first OID. -/
theorem findP256Spki_of_firstAt {der : List UInt8} {i : Nat} (h : FirstAt OID der i) :
    findP256Spki der =
      .ok (if KeyAt der i ∧ i + 79 ≤ der.length then some (keyBytes der i) else none) := by
  have hle : i + 10 ≤ der.length := h.1.le (by decide)
  have hrest : (der.drop (i + 10)).length = der.length - (i + 10) := List.length_drop
  unfold findP256Spki
  rw [(findIdx?_windows_eq_some_iff (by decide)).mpr h]
  simp only [show OID.length = 10 from rfl, sliceFrom_of_le hle, ok_bind, pure_eq]
  by_cases hshort : (der.drop (i + 10)).length < 4 + 65
  · rw [if_pos hshort, if_neg (by omega)]
  · rw [if_neg hshort, sliceTo_of_le (by omega), ok_bind]
    by_cases hheader : (der.drop (i + 10)).take 4 = spkiHeader
    · have hkey : KeyAt der i := keyAt_iff.mpr ⟨h.1, occursAt_iff_take.mpr hheader, by omega⟩
      rw [if_neg (not_not.mpr hheader), slice_of_le (by omega) (by omega), ok_bind,
        if_pos ⟨hkey, by omega⟩, List.drop_take, List.drop_drop]
      rfl
    · rw [if_pos hheader]
      rw [if_neg fun hkey => hheader (occursAt_iff_take.mp (keyAt_iff.mp hkey.1).2.1)]

theorem findP256Spki_of_none {der : List UInt8} (h : ∀ i, ¬ OccursAt OID der i) :
    findP256Spki der = .ok none := by
  unfold findP256Spki
  rw [(findIdx?_windows_eq_none_iff (by decide)).mpr h]
  rfl

theorem findP256Spki_eq_some_iff {der p : List UInt8} :
    findP256Spki der = .ok (some p) ↔
      ∃ i, FirstAt OID der i ∧ KeyAt der i ∧ i + 79 ≤ der.length ∧ p = keyBytes der i := by
  constructor
  · intro h
    rcases exists_firstAt_or_forall OID der with ⟨i, hi⟩ | hnone
    · rw [findP256Spki_of_firstAt hi, Outcome.ok.injEq, Option.ite_none_right_eq_some,
        Option.some.injEq] at h
      obtain ⟨⟨hkey, hlen⟩, rfl⟩ := h
      exact ⟨i, hi, hkey, hlen, rfl⟩
    · rw [findP256Spki_of_none hnone] at h
      cases h
  · rintro ⟨i, hi, hkey, hlen, rfl⟩
    rw [findP256Spki_of_firstAt hi, if_pos ⟨hkey, hlen⟩]

/-- No index is out of bounds. -/
theorem findP256Spki_total (der : List UInt8) : ∃ r, findP256Spki der = .ok r := by
  rcases exists_firstAt_or_forall OID der with ⟨i, hi⟩ | hnone
  · exact ⟨_, findP256Spki_of_firstAt hi⟩
  · exact ⟨_, findP256Spki_of_none hnone⟩

/-! ## Soundness -/

/-- The key `p` behind the first OID: header and point fit in `der`. -/
def FirstKey (der p : List UInt8) : Prop :=
  ∃ i, FirstAt OID der i ∧ (der.drop (i + 10)).take 3 = [0x03, 0x42, 0x00] ∧
    der[i + 13]? = some 0x04 ∧ i + 13 + 65 ≤ der.length ∧ p = (der.drop (i + 13)).take 65

/-- The key in the form the chip wants for host-supplied keys. -/
def hostKey (p : List UInt8) : List UInt8 := [0x03, 0x42, 0x00] ++ p

/-- The header is the wrapper and the first byte of the point. -/
theorem header_iff {der : List UInt8} {i : Nat} :
    OccursAt spkiHeader der (i + 10) ↔
      (der.drop (i + 10)).take 3 = [0x03, 0x42, 0x00] ∧ der[i + 13]? = some 0x04 := by
  have hget : der[i + 13]? = (der.drop (i + 10))[3]? := by rw [List.getElem?_drop]
  rw [occursAt_iff_take, hget]
  match der.drop (i + 10) with
  | [] => simp [spkiHeader]
  | [a] => simp [spkiHeader]
  | [a, b] => simp [spkiHeader]
  | [a, b, c] => simp [spkiHeader]
  | a :: b :: c :: d :: rest => simp [spkiHeader, and_assoc]

theorem firstKey_iff {der p : List UInt8} :
    FirstKey der p ↔ ∃ i, FirstAt OID der i ∧ KeyAt der i ∧ p = keyBytes der i := by
  constructor
  · rintro ⟨i, hfirst, hwrapper, hpoint, hlen, rfl⟩
    exact ⟨i, hfirst, keyAt_iff.mpr ⟨hfirst.1, header_iff.mpr ⟨hwrapper, hpoint⟩, by omega⟩, rfl⟩
  · rintro ⟨i, hfirst, hkey, rfl⟩
    obtain ⟨_, hheader, hlen⟩ := keyAt_iff.mp hkey
    obtain ⟨hwrapper, hpoint⟩ := header_iff.mp hheader
    exact ⟨i, hfirst, hwrapper, hpoint, by omega, rfl⟩

theorem keyBytes_head {der : List UInt8} {i : Nat} (h : KeyAt der i) :
    (keyBytes der i).head? = some 0x04 := by
  have hpoint := (header_iff.mp (keyAt_iff.mp h).2.1).2
  rw [keyBytes, List.head?_take, if_neg (by decide), List.head?_drop]
  exact hpoint

theorem length_keyBytes {der : List UInt8} {i : Nat} (h : KeyAt der i) :
    (keyBytes der i).length = 65 := by
  have hlen := h.2
  rw [keyBytes, List.length_take, List.length_drop]
  omega

/-- The rebuilt key is the BIT STRING that stands in the certificate. -/
theorem hostKey_keyBytes {der : List UInt8} {i : Nat} (h : KeyAt der i) :
    hostKey (keyBytes der i) = (der.drop (i + 10)).take 68 := by
  have hwrapper := (header_iff.mp (keyAt_iff.mp h).2.1).1
  rw [show 68 = 3 + 65 from rfl, List.take_add, hwrapper, List.drop_drop]
  rfl

theorem eccPublicKeyPoint_hostKey {p : List UInt8} (hlen : p.length = 65)
    (hpoint : p.head? = some 0x04) : eccPublicKeyPoint (hostKey p) = .ok p := by
  apply eccPublicKeyPoint_of_unwraps
  refine ⟨hpoint, Or.inr ⟨0x00, [0x42], ?_, rfl⟩⟩
  rw [hlen]
  exact Der.LengthField.short (by decide)

/-- The search finds exactly the keys behind the first OID, without a read out of bounds, and
what `main` rebuilds from them is the BIT STRING of the certificate. -/
structure KeySearchSound (der : List UInt8) : Prop where
  keys : ∀ p, findP256Spki der = .ok (some p) ↔ FirstKey der p
  host : ∀ p i, findP256Spki der = .ok (some p) → FirstAt OID der i →
    eccPublicKeyPoint (hostKey p) = .ok p ∧ hostKey p = (der.drop (i + 10)).take 68
  total : findP256Spki der ≠ .panic

/-- The key behind the first OID is the end of `der`. -/
def EndsWithKey (der : List UInt8) : Prop :=
  ∃ i, FirstAt OID der i ∧ KeyAt der i ∧ der.length = i + 78

theorem hostKey_of_found {der p : List UInt8} {i : Nat}
    (h : findP256Spki der = .ok (some p)) (hi : FirstAt OID der i) :
    eccPublicKeyPoint (hostKey p) = .ok p ∧ hostKey p = (der.drop (i + 10)).take 68 := by
  obtain ⟨j, hj, hkey, _, rfl⟩ := findP256Spki_eq_some_iff.mp h
  obtain rfl := hi.unique hj
  exact ⟨eccPublicKeyPoint_hostKey (length_keyBytes hkey) (keyBytes_head hkey),
    hostKey_keyBytes hkey⟩

theorem findP256Spki_ne_panic (der : List UInt8) : findP256Spki der ≠ .panic := by
  obtain ⟨r, hr⟩ := findP256Spki_total der
  rw [hr]
  simp

/-- **The search is exact unless the key ends the certificate.** -/
theorem keySearchSound_iff (der : List UInt8) : KeySearchSound der ↔ ¬ EndsWithKey der := by
  constructor
  · rintro hsound ⟨i, hi, hkey, hlen⟩
    have hfound := (hsound.keys _).mpr (firstKey_iff.mpr ⟨i, hi, hkey, rfl⟩)
    obtain ⟨j, hj, _, hlonger, _⟩ := findP256Spki_eq_some_iff.mp hfound
    obtain rfl := hi.unique hj
    omega
  · intro hend
    refine ⟨?_, fun p i => hostKey_of_found, findP256Spki_ne_panic der⟩
    intro p
    rw [findP256Spki_eq_some_iff, firstKey_iff]
    constructor
    · rintro ⟨i, hi, hkey, _, rfl⟩
      exact ⟨i, hi, hkey, rfl⟩
    · rintro ⟨i, hi, hkey, rfl⟩
      have hlen := hkey.2
      have hne : der.length ≠ i + 78 := fun heq => hend ⟨i, hi, hkey, heq⟩
      exact ⟨i, hi, hkey, by omega, rfl⟩

/-- OID, header and point. -/
def spki : List UInt8 := OID ++ spkiHeader ++ List.replicate 64 0x11

/-- A SEQUENCE that ends with the key. -/
def bareSpki : List UInt8 := [0x30, 0x82, 0x00, 0x4E] ++ spki

theorem not_keySearchSound_bare : findP256Spki bareSpki = .ok none ∧ ¬ KeySearchSound bareSpki := by
  have hnone : findP256Spki bareSpki = .ok none := by decide
  refine ⟨hnone, fun h => ?_⟩
  have hkey : FirstKey bareSpki (0x04 :: List.replicate 64 0x11) :=
    ⟨4, ⟨by decide, by decide⟩, by decide, by decide, by decide, by decide⟩
  rw [(h.keys _).mpr hkey] at hnone
  cases hnone

/-! ## Completeness -/

/-- A key anywhere in `der` is found, or another one. -/
def FindsKey (der : List UInt8) : Prop :=
  (∃ k, KeyAt der k) → ∃ k, KeyAt der k ∧ findP256Spki der = .ok (some (keyBytes der k))

/-- **The search misses no key exactly when the first OID belongs to one.** It needs one byte
behind the point. -/
theorem findsKey_iff (der : List UInt8) :
    FindsKey der ↔ ((∃ k, KeyAt der k) →
      ∃ i, FirstAt OID der i ∧ OccursAt spkiHeader der (i + 10) ∧ i + 79 ≤ der.length) := by
  constructor
  · intro h hkey
    obtain ⟨k, _, hfound⟩ := h hkey
    obtain ⟨i, hi, hkey, hlen, _⟩ := findP256Spki_eq_some_iff.mp hfound
    exact ⟨i, hi, (keyAt_iff.mp hkey).2.1, hlen⟩
  · intro h hkey
    obtain ⟨i, hi, hheader, hlen⟩ := h hkey
    have hkey : KeyAt der i := keyAt_iff.mpr ⟨hi.1, hheader, by omega⟩
    exact ⟨i, hkey, findP256Spki_eq_some_iff.mpr ⟨i, hi, hkey, hlen, rfl⟩⟩

/-- A SEQUENCE of an OID without a key behind it, a whole key and one more byte. -/
def decoySpki : List UInt8 :=
  [0x30, 0x82, 0x00, 0x5B] ++ OID ++ [0x05, 0x00] ++ spki ++ [0xFF]

theorem not_findsKey_decoy : findP256Spki decoySpki = .ok none ∧ ¬ FindsKey decoySpki := by
  have hnone : findP256Spki decoySpki = .ok none := by decide
  refine ⟨hnone, fun h => ?_⟩
  obtain ⟨k, _, hfound⟩ := h ⟨16, by decide⟩
  rw [hnone] at hfound
  cases hfound

end Trustm
