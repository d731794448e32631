import Trustm.Methods.Calls

/-!
# Exported private keys

The library reports no length for an exported private key; `ecc_generate_keypair_exported`
reads it from the DER header in the buffer and truncates. `Vec::truncate` ignores a length
beyond the buffer, and nothing compares the two.

* `StartsWithElement` and `Overlong` are what a buffer may hold in place of a key.
* `exportsElement_iff`: the method returns one complete DER element or an error exactly when
  the header does not announce more than the buffer has.
-/

namespace Trustm

open Outcome Effect Der

/-- A DER element with its whole content stands at the front of `buf`. -/
def StartsWithElement (buf : List UInt8) : Prop :=
  ∃ tag l rest v, buf = tag :: (l ++ rest) ∧ LengthField l v ∧ v ≤ rest.length

/-- The header at the front of `buf` announces more content than there is. -/
def Overlong (buf : List UInt8) : Prop :=
  ∃ tag l rest v, buf = tag :: (l ++ rest) ∧ LengthField l v ∧ rest.length < v

/-- The private-key buffer after the next command. -/
def exportedKey (chip : Chip) (s : Host) : List UInt8 :=
  (chip.next s).output 0 (List.replicate 256 0)

/-- The public key as `ecc_generate_keypair_exported` returns it. -/
def exportedPublic (chip : Chip) (s : Host) : List UInt8 :=
  truncate ((chip.next s).output 1 (List.replicate 256 0)) (chip.next s).len16

/-! ## Elements -/

theorem derLen_truncate {buf : List UInt8} {n : Nat} (h : derLen buf = some n)
    (hn : n ≤ buf.length) : derLen (truncate buf n) = some (truncate buf n).length := by
  obtain ⟨tag, l, rest, v, rfl, hl, rfl⟩ := derLen_eq_some_iff.mp h
  have htake : truncate (tag :: (l ++ rest)) (1 + l.length + v) = tag :: (l ++ rest.take v) := by
    rw [truncate, Nat.add_comm 1, Nat.add_right_comm, List.take_succ_cons,
      List.take_length_add_append]
  have hlen : (truncate (tag :: (l ++ rest)) (1 + l.length + v)).length = 1 + l.length + v := by
    rw [truncate, List.length_take, Nat.min_eq_left hn]
  rw [hlen, htake]
  exact derLen_of_field tag hl

/-- The content that a header announces against the content that is there; a relation that
ignores a common summand sees the same in the whole lengths. -/
theorem announced_iff {buf : List UInt8} {R : Nat → Nat → Prop}
    (hR : ∀ k v w, R (k + v) (k + w) ↔ R v w) :
    (∃ tag l rest v, buf = tag :: (l ++ rest) ∧ LengthField l v ∧ R v rest.length) ↔
      ∃ n, derLen buf = some n ∧ R n buf.length := by
  have hlen (tag : UInt8) (l rest : List UInt8) :
      (tag :: (l ++ rest)).length = 1 + l.length + rest.length := by
    rw [List.length_cons, List.length_append]
    omega
  constructor
  · rintro ⟨tag, l, rest, v, rfl, hl, hv⟩
    refine ⟨_, derLen_of_field tag hl, ?_⟩
    rw [hlen]
    exact (hR _ v _).mpr hv
  · rintro ⟨n, h, hn⟩
    obtain ⟨tag, l, rest, v, rfl, hl, rfl⟩ := derLen_eq_some_iff.mp h
    rw [hlen] at hn
    exact ⟨tag, l, rest, v, rfl, hl, (hR _ v _).mp hn⟩

theorem startsWithElement_iff {buf : List UInt8} :
    StartsWithElement buf ↔ ∃ n, derLen buf = some n ∧ n ≤ buf.length :=
  announced_iff fun _ _ _ => Nat.add_le_add_iff_left

theorem overlong_iff {buf : List UInt8} :
    Overlong buf ↔ ∃ n, derLen buf = some n ∧ buf.length < n :=
  announced_iff (R := fun v w => w < v) fun _ _ _ => Nat.add_lt_add_iff_left

/-! ## The method -/

section Successful

variable {chip : Chip} {s : Host} (hok : (chip.next s).completion.result = .ok ())
  (curve : EccCurve)

include hok

/-- Behind a successful command, the method is the cut at the announced length. -/
theorem exported_eq : (chip.eccGenerateKeypairExported curve s).1 = do
    let privLen ← okOr (derLen (exportedKey chip s)) (.badData "private key DER")
    return (truncate (exportedKey chip s) privLen, exportedPublic chip s) := by
  unfold Chip.eccGenerateKeypairExported
  rw [zeros_bind (by decide), zeros_bind (by decide), bind_of_ok (chip.run_of_ok hok)]
  change (Effect.bind (lift (okOr (derLen (exportedKey chip s)) _)) _ _).1 = _
  cases derLen (exportedKey chip s) <;> rfl

end Successful

/-- What the method returns for the buffer is one complete DER element, cut off its front; a
buffer that does not start with one is an error. -/
structure ExportsElement (chip : Chip) (curve : EccCurve) (s : Host) : Prop where
  element : ∀ priv pub, (chip.eccGenerateKeypairExported curve s).1 = .ok (priv, pub) →
    priv <+: exportedKey chip s ∧ derLen priv = some priv.length
  rejects : ¬ StartsWithElement (exportedKey chip s) →
    ∃ what, (chip.eccGenerateKeypairExported curve s).1 = .err (.badData what)

/-- **An exported key is whole unless its header announces more than the buffer has.** -/
theorem exportsElement_iff (chip : Chip) (curve : EccCurve) (s : Host)
    (hok : (chip.next s).completion.result = .ok ()) :
    ExportsElement chip curve s ↔ ¬ Overlong (exportedKey chip s) := by
  constructor
  · intro h hlong
    obtain ⟨n, hlen, hn⟩ := overlong_iff.mp hlong
    have hreturn := exported_eq hok curve
    rw [hlen] at hreturn
    -- the cut keeps the whole buffer, which is shorter than its header says
    have hcut : truncate (exportedKey chip s) n = exportedKey chip s :=
      List.take_of_length_le hn.le
    have helement := (h.element _ _ hreturn).2
    rw [hcut, hlen, Option.some.injEq] at helement
    omega
  · intro hshort
    refine ⟨?_, ?_⟩
    · intro priv pub h
      rw [exported_eq hok curve] at h
      cases hlen : derLen (exportedKey chip s) with
      | none =>
        rw [hlen] at h
        cases h
      | some n =>
        rw [hlen] at h
        cases h
        have hn : n ≤ (exportedKey chip s).length := by
          by_contra hlt
          exact hshort (overlong_iff.mpr ⟨n, hlen, Nat.lt_of_not_le hlt⟩)
        exact ⟨List.take_prefix n _, derLen_truncate hlen hn⟩
    · intro hnone
      refine ⟨"private key DER", ?_⟩
      rw [exported_eq hok curve]
      cases hlen : derLen (exportedKey chip s) with
      | none => rfl
      | some n =>
        exfalso
        by_cases hn : n ≤ (exportedKey chip s).length
        · exact hnone (startsWithElement_iff.mpr ⟨n, hlen, hn⟩)
        · exact hshort (overlong_iff.mpr ⟨n, hlen, Nat.lt_of_not_le hn⟩)

/-- A library that succeeds and writes `bytes` to the first buffer of every command. -/
def writingChip (bytes : List UInt8) : Chip where
  reply _ :=
    { null := false
      completion := .completed 0 (by decide)
      written := [bytes]
      length := 0 }

theorem exportedKey_writingChip {bytes : List UInt8} {n : Nat} (h : bytes.length + n = 256) :
    exportedKey (writingChip bytes) Host.start = bytes ++ List.replicate n 0 := by
  have hn : 256 - bytes.length = n := by omega
  change bytes.take (List.replicate 256 (0 : UInt8)).length ++
    (List.replicate 256 0).drop bytes.length = _
  rw [List.length_replicate, List.take_of_length_le (by omega), List.drop_replicate, hn]

/-- An OCTET STRING with two bytes is exported whole. -/
theorem exportsElement_short :
    ExportsElement (writingChip [0x04, 0x02, 0xAB, 0xCD]) .nistP256 Host.start := by
  apply (exportsElement_iff _ _ _ rfl).mpr
  intro hlong
  obtain ⟨n, hlen, hn⟩ := overlong_iff.mp hlong
  rw [exportedKey_writingChip (n := 252) rfl] at hlen hn
  rw [← Option.some.inj hlen, List.length_append, List.length_replicate] at hn
  exact absurd hn (by decide)

/-- The header announces 256 bytes behind its own four; the method returns the 256 bytes of the
buffer as the key. -/
theorem not_exportsElement_overlong :
    ((writingChip [0x04, 0x82, 0x01, 0x00]).eccGenerateKeypairExported .nistP256 Host.start).1 =
        .ok ([0x04, 0x82, 0x01, 0x00] ++ List.replicate 252 0, []) ∧
      derLen ([0x04, 0x82, 0x01, 0x00] ++ List.replicate 252 0) = some 260 ∧
      ¬ ExportsElement (writingChip [0x04, 0x82, 0x01, 0x00]) .nistP256 Host.start := by
  have hlen : derLen ([0x04, 0x82, 0x01, 0x00] ++ List.replicate 252 0) = some 260 := rfl
  have hcut : truncate ([0x04, 0x82, 0x01, 0x00] ++ List.replicate 252 0) 260 =
      [0x04, 0x82, 0x01, 0x00] ++ List.replicate 252 0 := by
    apply List.take_of_length_le
    rw [List.length_append, List.length_replicate]
    decide
  have hok : ((writingChip [0x04, 0x82, 0x01, 0x00]).next Host.start).completion.result = .ok () :=
    rfl
  have hreturn := exported_eq hok .nistP256
  rw [exportedKey_writingChip (n := 252) rfl, hlen, okOr_some, ok_bind, hcut] at hreturn
  refine ⟨hreturn, hlen, ?_⟩
  intro h
  have helement := (h.element _ _ hreturn).2
  rw [hlen, List.length_append, List.length_replicate] at helement
  exact absurd helement (by decide)

end Trustm
