import Trustm.Methods.Results
import Trustm.Support.PrefixCode

/-!
# Elements in a buffer

`der_len` reads the length of an element off its header and looks at nothing else.

* `derLen_uniquelyDecodable`: so no element is the front of another one, and therefore elements in
  a row are told apart in one way only.
* `exported_returns`: the method that has to find the private key in a buffer returns the keys
  that the chip wrote, whatever stands behind them.
-/

namespace Trustm

open Outcome Effect Der PrefixCode

theorem announces_derLen : Announces derLen := by
  intro buf rest n h
  obtain ⟨tag, l, content, v, rfl, hl, rfl⟩ := derLen_eq_some_iff.mp h
  have hsplit : tag :: (l ++ content) ++ rest = tag :: (l ++ (content ++ rest)) := by
    rw [List.cons_append, List.append_assoc]
  rw [hsplit]
  exact derLen_of_field tag hl

/-- **No element is the front of another one, and elements in a row are told apart in one way.** -/
theorem derLen_uniquelyDecodable :
    PrefixFree {e : List UInt8 | derLen e = some e.length} ∧
      InformationTheory.UniquelyDecodable {e : List UInt8 | derLen e = some e.length} :=
  ⟨announces_derLen.prefixFree, announces_derLen.uniquelyDecodable rfl⟩

/-- The command succeeded, and left two keys in buffers of 256 bytes: the first one is an element,
and the second one comes with its length. -/
structure Reply.Exports (r : Reply) (priv pub : List UInt8) : Prop where
  succeeds : r.completion.result = .ok ()
  first : r.written.getD 0 [] = priv
  second : r.written.getD 1 [] = pub
  element : derLen priv = some priv.length
  length : r.len16 = pub.length
  privFits : priv.length ≤ 256
  pubFits : pub.length ≤ 256

/-- **An exported key pair comes back as the chip wrote it**, to the last byte. -/
theorem exported_returns (chip : Chip) (curve : EccCurve) (s : Host) {priv pub : List UInt8}
    (h : (chip.next s).Exports priv pub) :
    (chip.eccGenerateKeypairExported curve s).1 = .ok (priv, pub) := by
  have hpriv : exportedKey chip s = priv ++ List.replicate (256 - priv.length) 0 :=
    Reply.output_zeros h.first h.privFits
  have hlen : derLen (exportedKey chip s) = some priv.length := by
    rw [hpriv]
    exact announces_derLen priv _ _ h.element
  have hcut : truncate (exportedKey chip s) priv.length = priv := by
    rw [hpriv]
    exact List.take_left
  have hpub : exportedPublic chip s = pub := by
    unfold exportedPublic
    rw [Reply.output_zeros h.second h.pubFits, h.length]
    exact List.take_left
  rw [exported_eq h.succeeds curve, hlen, okOr_some, ok_bind, hcut, hpub]
  rfl

/-- A library that exports an OCTET STRING and the BIT STRING of an empty point. -/
def exportingChip : Chip where
  reply n := { (tellingChip [0x03, 0x01, 0x00]).reply n with
    written := [[0x04, 0x02, 0xAB, 0xCD], [0x03, 0x01, 0x00]] }

theorem exported_returns_short :
    (exportingChip.eccGenerateKeypairExported .nistP256 .start).1 =
      .ok ([0x04, 0x02, 0xAB, 0xCD], [0x03, 0x01, 0x00]) := by
  apply exported_returns
  refine ⟨rfl, rfl, rfl, rfl, ?_, by decide, by decide⟩
  exact @len16_tellingChip [0x03, 0x01, 0x00] (by decide) .start

end Trustm
