import Trustm.Check.Certificate

/-!
# Framed and bare certificates

0xE0E0 holds the device certificate alone, or a chain of certificates in the "TLS identity"
framing, the device certificate first. `strip_cert_header` takes the nine bytes in front of the
first certificate away and leaves everything behind it, so the search for the key runs on into
the certificates of the issuers.

* `frame` is the framing that the comment of `strip_cert_header` describes.
* `framedAgrees_iff`: the framed chain gives the key of its first certificate exactly when the
  first key the search meets lies inside this certificate.
-/

namespace Trustm

open Outcome Search

/-- A certificate, as far as `trustm-check` looks at it: bytes that begin with a SEQUENCE. -/
structure Certificate where
  bytes : List UInt8
  tag : bytes.head? = some 0x30

def be16 (n : Nat) : List UInt8 := [UInt8.ofNat (n / 256), UInt8.ofNat n]

def be24 (n : Nat) : List UInt8 := UInt8.ofNat (n / 65536) :: be16 n

/-- Every certificate behind its own 3-byte length. -/
def chain (cs : List Certificate) : List UInt8 :=
  cs.flatMap fun c => be24 c.bytes.length ++ c.bytes

/-- Tag, 2-byte length, 3-byte length of the chain, and the chain. -/
def frame (cs : List Certificate) : List UInt8 :=
  0xC0 :: (be16 (3 + (chain cs).length) ++ be24 (chain cs).length ++ chain cs)

/-- What `main` looks for in the contents of 0xE0E0. -/
def readKey (raw : List UInt8) : Outcome Error (Option (List UInt8)) := do
  findP256Spki (← stripCertHeader raw)

/-! ## Headers -/

theorem stripCertHeader_bare (c : Certificate) : stripCertHeader c.bytes = .ok c.bytes :=
  if_pos c.tag

/-- Behind the header of a frame come the first certificate and the rest of the chain. -/
theorem stripCertHeader_frame (c : Certificate) (cs : List Certificate) :
    stripCertHeader (frame (c :: cs)) = .ok (c.bytes ++ chain cs) := by
  have hne : c.bytes ≠ [] := by
    intro hnil
    have htag := c.tag
    rw [hnil] at htag
    cases htag
  have hpos := List.length_pos_iff.mpr hne
  have hchain : chain (c :: cs) = be24 c.bytes.length ++ (c.bytes ++ chain cs) := by
    simp [chain]
  have hlen : (frame (c :: cs)).length = 9 + (c.bytes ++ chain cs).length := by
    simp only [frame, hchain, be16, be24, List.length_cons, List.length_append, List.length_nil]
    omega
  have hdrop : (frame (c :: cs)).drop 9 = c.bytes ++ chain cs := by
    simp [frame, hchain, be16, be24]
  have hlong : (frame (c :: cs)).length > 9 := by
    rw [hlen, List.length_append]
    omega
  unfold stripCertHeader
  rw [if_neg (by simp [frame]), if_pos ⟨rfl, hlong⟩, sliceFrom_of_le (by omega), hdrop]

/-! ## The search in a longer string -/

theorem keyAt_append_iff {xs ys : List UInt8} {i : Nat} (hle : i + 78 ≤ xs.length) :
    KeyAt (xs ++ ys) i ↔ KeyAt xs i := by
  have hocc : OccursAt (OID ++ spkiHeader) (xs ++ ys) i ↔ OccursAt (OID ++ spkiHeader) xs i :=
    occursAt_append_iff (by
      have : (OID ++ spkiHeader).length = 14 := rfl
      omega)
  simp only [KeyAt, hocc, List.length_append]
  constructor
  · rintro ⟨h, _⟩
    exact ⟨h, hle⟩
  · rintro ⟨h, _⟩
    exact ⟨h, by omega⟩

theorem keyBytes_append {xs ys : List UInt8} {i : Nat} (hle : i + 78 ≤ xs.length) :
    keyBytes (xs ++ ys) i = keyBytes xs i := by
  rw [keyBytes, keyBytes, List.drop_append_of_le_length (by omega),
    List.take_append_of_le_length (by rw [List.length_drop]; omega)]

theorem firstOid_append_iff {xs ys : List UInt8} {i : Nat} (hle : i + 78 ≤ xs.length) :
    FirstAt OID (xs ++ ys) i ↔ FirstAt OID xs i :=
  firstAt_append_iff (by
    have : OID.length = 10 := rfl
    omega)

/-- A key found in `xs` is found in every longer string. -/
theorem findP256Spki_append {xs p : List UInt8} (h : findP256Spki xs = .ok (some p))
    (ys : List UInt8) : findP256Spki (xs ++ ys) = .ok (some p) := by
  obtain ⟨i, hi, hkey, hlen, rfl⟩ := findP256Spki_eq_some_iff.mp h
  apply findP256Spki_eq_some_iff.mpr
  refine ⟨i, (firstOid_append_iff hkey.2).mpr hi, (keyAt_append_iff hkey.2).mpr hkey, ?_,
    (keyBytes_append hkey.2).symm⟩
  rw [List.length_append]
  omega

/-- The first key the search meets in `xs ++ ys`, with the byte behind it, lies in `xs`. -/
def FirstKeyInside (xs ys : List UInt8) : Prop :=
  ∀ i, FirstAt OID (xs ++ ys) i → OccursAt spkiHeader (xs ++ ys) (i + 10) →
    i + 79 ≤ (xs ++ ys).length → i + 79 ≤ xs.length

theorem findP256Spki_append_eq_iff (xs ys : List UInt8) :
    findP256Spki (xs ++ ys) = findP256Spki xs ↔ FirstKeyInside xs ys := by
  constructor
  · intro heq i hi hheader hlen
    have hkey : KeyAt (xs ++ ys) i := keyAt_iff.mpr ⟨hi.1, hheader, by omega⟩
    have hfound := findP256Spki_eq_some_iff.mpr ⟨i, hi, hkey, hlen, rfl⟩
    rw [heq] at hfound
    obtain ⟨j, hj, hkey, hinside, _⟩ := findP256Spki_eq_some_iff.mp hfound
    obtain rfl := hi.unique ((firstOid_append_iff hkey.2).mpr hj)
    exact hinside
  · intro hinside
    obtain ⟨r, hr⟩ := findP256Spki_total xs
    cases r with
    | some p => rw [findP256Spki_append hr, hr]
    | none =>
      obtain ⟨r', hr'⟩ := findP256Spki_total (xs ++ ys)
      cases r' with
      | none => rw [hr, hr']
      | some p =>
        -- the key would be found in `xs` as well
        obtain ⟨i, hi, hkey, hlen, rfl⟩ := findP256Spki_eq_some_iff.mp hr'
        have hle := hinside i hi (keyAt_iff.mp hkey).2.1 hlen
        have hkey' := (keyAt_append_iff (by omega)).mp hkey
        rw [findP256Spki_eq_some_iff.mpr
          ⟨i, (firstOid_append_iff hkey'.2).mp hi, hkey', hle, rfl⟩] at hr
        cases hr

/-! ## Frames -/

/-- The framed chain gives the same key, or none, as its first certificate alone. -/
def FramedAgrees (c : Certificate) (cs : List Certificate) : Prop :=
  readKey (frame (c :: cs)) = readKey c.bytes

/-- **The key is that of the first certificate exactly when the search stops inside it.** -/
theorem framedAgrees_iff (c : Certificate) (cs : List Certificate) :
    FramedAgrees c cs ↔ FirstKeyInside c.bytes (chain cs) := by
  rw [FramedAgrees, readKey, readKey, stripCertHeader_frame, stripCertHeader_bare, ok_bind, ok_bind]
  exact findP256Spki_append_eq_iff c.bytes (chain cs)

/-- A device certificate without a P-256 key. -/
def deviceCert : Certificate := ⟨[0x30, 0x82, 0x00, 0x00], rfl⟩

/-- The certificate of an issuer with one. -/
def issuerCert : Certificate := ⟨[0x30, 0x82, 0x00, 0x4F] ++ spki ++ [0xFF], rfl⟩

/-- The framed chain gives the key of the issuer, the device certificate alone none. -/
theorem not_framedAgrees_issuer :
    readKey (frame [deviceCert, issuerCert]) = .ok (some (0x04 :: List.replicate 64 0x11)) ∧
      readKey deviceCert.bytes = .ok none ∧ ¬ FramedAgrees deviceCert [issuerCert] := by
  have hframed : readKey (frame [deviceCert, issuerCert]) =
      .ok (some (0x04 :: List.replicate 64 0x11)) := by decide
  have hbare : readKey deviceCert.bytes = .ok none := by decide
  refine ⟨hframed, hbare, fun h => ?_⟩
  rw [FramedAgrees, hframed, hbare] at h
  cases h

end Trustm
