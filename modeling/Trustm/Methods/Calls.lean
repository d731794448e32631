import Trustm.Methods.Library
import Trustm.PublicKey.Point

/-!
# The methods of `Trustm`

`open`, `close` and every method that issues a command, in the order of `lib.rs`: what it checks
and converts, the command with its lengths and buffers, and what it returns from the answer.

* `tryFrom` is the checked conversion of a length, `zeros` the allocation of an output buffer.
* `Method` collects the methods behind `open` with their arguments, `Method.perform` runs one of
  them and lists the byte strings it returns.
-/

namespace Trustm

open Outcome Effect

/-- `uN::try_from(n).map_err(|_| Error::InvalidArgument(what))`, for the type with `size` values
into which `ofNat` reduces. -/
def tryFrom {α : Type} (size : Nat) (ofNat : Nat → α) (n : Nat) (what : String) :
    Effect Host Error α :=
  lift (if n < size then .ok (ofNat n) else .err (.invalidArgument what))

def tryU8 : Nat → String → Effect Host Error UInt8 := tryFrom UInt8.size UInt8.ofNat

def tryU16 : Nat → String → Effect Host Error UInt16 := tryFrom UInt16.size UInt16.ofNat

def tryU32 : Nat → String → Effect Host Error UInt32 := tryFrom UInt32.size UInt32.ofNat

/-- `vec![0u8; n]` -/
def zeros (n : Nat) : Effect Host Error (List UInt8) := lift (vec 0 n)

theorem zeros_bind {α : Type} {n : Nat} (hn : n < 2 ^ 32) (f : List UInt8 → Effect Host Error α) :
    (zeros n >>= f) = f (List.replicate n 0) := by
  have hfits : n ≤ isizeMax := by
    unfold isizeMax
    omega
  rw [zeros, vec_of_le hfits]
  rfl

theorem tryFrom_bind {α γ : Type} {size : Nat} {ofNat : Nat → γ} {n : Nat} (hn : n < size)
    (what : String) (f : γ → Effect Host Error α) :
    (tryFrom size ofNat n what >>= f) = f (ofNat n) := by
  rw [tryFrom, if_pos hn]
  rfl

/-- A 16-bit length behind a pointer after the call, `as usize`. -/
def Reply.len16 (r : Reply) : Nat := r.length.toUInt16.toNat

/-- A 32-bit length behind a pointer after the call, `as usize`. -/
def Reply.len32 (r : Reply) : Nat := r.length.toNat

section Methods

variable (chip : Chip)

/-! ## Open and close -/

/-- `Drop::drop` -/
def Chip.drop : Effect Host Error Unit := do
  let _ ← chip.call .cryptDestroy
  let _ ← chip.call .utilDestroy
  modify fun s => { s with OPEN := false }

def Chip.openInner (bus : List UInt8) (addr : UInt8) : Effect Host Error Unit := do
  -- `CString::new`
  if 0 ∈ bus then
    lift (.err (.invalidArgument "bus path"))
  let _ ← chip.call (.configure bus addr)
  let util ← chip.call .utilCreate
  if util.null then
    lift (.err .noInstance)
  let crypt ← chip.call .cryptCreate
  if crypt.null then
    let _ ← chip.call .utilDestroy
    lift (.err .noInstance)
  match ← attempt (chip.run (.openApplication 0)) with
  | .ok _ => return ()
  | .error e =>
    chip.drop
    lift (.err e)

def Chip.open (bus : List UInt8) (addr : UInt8) : Effect Host Error Unit := do
  -- `OPEN.swap(true)`
  let before ← get
  modify fun s => { s with OPEN := true }
  if before.OPEN then
    lift (.err .alreadyOpen)
  match ← attempt (chip.openInner bus addr) with
  | .ok () => return ()
  | .error e =>
    modify fun s => { s with OPEN := false }
    lift (.err e)

/-- The handle is dropped at the end, whatever the answer. -/
def Chip.close : Effect Host Error Unit := do
  let r ← attempt (chip.run (.closeApplication 0))
  chip.drop
  let _ ← lift (ofExcept r)
  return ()

/-! ## Data objects -/

def Chip.readData (oid offset : UInt16) : Effect Host Error (List UInt8) := do
  let buf ← zeros 2048
  let len := UInt16.ofNat buf.length
  let reply ← chip.run (.readData oid offset buf len)
  return truncate (reply.output 0 buf) reply.len16

def Chip.writeData (oid : UInt16) (mode : WriteType) (offset : UInt16) (data : List UInt8) :
    Effect Host Error Unit := do
  let len ← tryU16 data.length "data too long"
  let _ ← chip.run (.writeData oid mode.raw offset data len)
  return ()

def Chip.readMetadata (oid : UInt16) : Effect Host Error (List UInt8) := do
  let buf ← zeros 256
  let len := UInt16.ofNat buf.length
  let reply ← chip.run (.readMetadata oid buf len)
  return truncate (reply.output 0 buf) reply.len16

def Chip.writeMetadata (oid : UInt16) (metadata : List UInt8) : Effect Host Error Unit := do
  let len ← tryU8 metadata.length "metadata too long"
  let _ ← chip.run (.writeMetadata oid metadata len)
  return ()

def Chip.updateCounter (oid : UInt16) (count : UInt8) : Effect Host Error Unit := do
  let _ ← chip.run (.updateCount oid count)
  return ()

/-! ## Random and hash -/

def Chip.random (rng : RngType) (len : UInt16) : Effect Host Error (List UInt8) := do
  if ¬ (8 ≤ len ∧ len ≤ 256) then
    lift (.err (.invalidArgument "random length must be 8..=256"))
  let buf ← zeros len.toNat
  let reply ← chip.run (.random rng.raw buf len)
  return reply.output 0 buf

def Chip.hashSha256 (data : List UInt8) : Effect Host Error (List UInt8) := do
  let len ← tryU32 data.length "data too long"
  let src := HashData.host data len
  let out := List.replicate 32 0
  let reply ← chip.run (.hash OPTIGA_HASH_TYPE_SHA_256 OPTIGA_CRYPT_HOST_DATA.toUInt8 src out)
  return reply.output 0 out

def Chip.hashSha256Oid (oid offset len : UInt16) : Effect Host Error (List UInt8) := do
  let src := HashData.inOptiga oid offset len
  let out := List.replicate 32 0
  let reply ← chip.run (.hash OPTIGA_HASH_TYPE_SHA_256 OPTIGA_CRYPT_OID_DATA.toUInt8 src out)
  return reply.output 0 out

/-! ## ECC -/

def Chip.eccGenerateKeypair (curve : EccCurve) (usage : KeyUsage) (slot : KeyId) :
    Effect Host Error (List UInt8) := do
  let oid := slot.raw
  let pubKey ← zeros 256
  let pubLen := UInt16.ofNat pubKey.length
  let reply ← chip.run
    (.eccGenerateKeypair curve.raw usage.bits 0 (.slot oid) pubKey pubLen)
  return truncate (reply.output 0 pubKey) reply.len16

/-- The length of the private key is not reported and is read from its DER header. -/
def Chip.eccGenerateKeypairExported (curve : EccCurve) :
    Effect Host Error (List UInt8 × List UInt8) := do
  let privKey ← zeros 256
  let pubKey ← zeros 256
  let pubLen := UInt16.ofNat pubKey.length
  let reply ← chip.run (.eccGenerateKeypair curve.raw 0 1 (.buffer privKey) pubKey pubLen)
  let pubKey := truncate (reply.output 1 pubKey) reply.len16
  let privKey := reply.output 0 privKey
  let privLen ← lift (okOr (derLen privKey) (.badData "private key DER"))
  return (truncate privKey privLen, pubKey)

def Chip.ecdsaSign (slot : KeyId) (digest : List UInt8) : Effect Host Error (List UInt8) := do
  let dlen ← tryU8 digest.length "digest too long"
  let sig ← zeros 160
  let sigLen := UInt16.ofNat sig.length
  let reply ← chip.run (.ecdsaSign digest dlen slot.raw sig sigLen)
  return truncate (reply.output 0 sig) reply.len16

def Chip.ecdsaVerify (curve : EccCurve) (publicKey digest signature : List UInt8) :
    Effect Host Error Unit := do
  let dlen ← tryU8 digest.length "digest too long"
  let slen ← tryU16 signature.length "signature too long"
  let klen ← tryU16 publicKey.length "public key too long"
  let key : PublicKeyFromHost := ⟨publicKey, klen, curve.raw.toUInt8⟩
  let _ ← chip.run
    (.ecdsaVerify digest dlen signature slen OPTIGA_CRYPT_HOST_DATA.toUInt8 (.host key))
  return ()

def Chip.ecdsaVerifyOid (publicKeyOid : UInt16) (digest signature : List UInt8) :
    Effect Host Error Unit := do
  let dlen ← tryU8 digest.length "digest too long"
  let slen ← tryU16 signature.length "signature too long"
  let _ ← chip.run
    (.ecdsaVerify digest dlen signature slen OPTIGA_CRYPT_OID_DATA.toUInt8 (.oid publicKeyOid))
  return ()

def Chip.ecdh (slot : KeyId) (curve : EccCurve) (peerPublicKey : List UInt8) :
    Effect Host Error (List UInt8) := do
  let klen ← tryU16 peerPublicKey.length "public key too long"
  let key : PublicKeyFromHost := ⟨peerPublicKey, klen, curve.raw.toUInt8⟩
  let secret ← zeros curve.componentLen
  let reply ← chip.run (.ecdh slot.raw key 1 secret)
  return reply.output 0 secret

/-! ## RSA -/

def Chip.rsaGenerateKeypair (keyType : RsaKeyType) (usage : KeyUsage) (slot : KeyId) :
    Effect Host Error (List UInt8) := do
  let oid := slot.raw
  let pubKey ← zeros 512
  let pubLen := UInt16.ofNat pubKey.length
  let reply ← chip.run
    (.rsaGenerateKeypair keyType.raw usage.bits 0 (.slot oid) pubKey pubLen)
  return truncate (reply.output 0 pubKey) reply.len16

def Chip.rsaSign (scheme : RsaSignatureScheme) (slot : KeyId) (digest : List UInt8) :
    Effect Host Error (List UInt8) := do
  let dlen ← tryU8 digest.length "digest too long"
  let sig ← zeros 256
  let sigLen := UInt16.ofNat sig.length
  let reply ← chip.run (.rsaSign scheme.raw digest dlen slot.raw sig sigLen 0)
  return truncate (reply.output 0 sig) reply.len16

def Chip.rsaVerify (scheme : RsaSignatureScheme) (keyType : RsaKeyType)
    (publicKey digest signature : List UInt8) : Effect Host Error Unit := do
  let dlen ← tryU8 digest.length "digest too long"
  let slen ← tryU16 signature.length "signature too long"
  let klen ← tryU16 publicKey.length "public key too long"
  let key : PublicKeyFromHost := ⟨publicKey, klen, keyType.raw.toUInt8⟩
  let _ ← chip.run
    (.rsaVerify scheme.raw digest dlen signature slen OPTIGA_CRYPT_HOST_DATA.toUInt8 (.host key) 0)
  return ()

def Chip.rsaEncrypt (keyType : RsaKeyType) (publicKey message : List UInt8) :
    Effect Host Error (List UInt8) := do
  let mlen ← tryU16 message.length "message too long"
  let klen ← tryU16 publicKey.length "public key too long"
  let key : PublicKeyFromHost := ⟨publicKey, klen, keyType.raw.toUInt8⟩
  let out ← zeros keyType.modulusLen
  let outLen := UInt16.ofNat out.length
  let reply ← chip.run (.rsaEncryptMessage OPTIGA_RSAES_PKCS1_V15 message mlen none 0
    OPTIGA_CRYPT_HOST_DATA.toUInt8 (.host key) out outLen)
  return truncate (reply.output 0 out) reply.len16

def Chip.rsaDecrypt (slot : KeyId) (ciphertext : List UInt8) :
    Effect Host Error (List UInt8) := do
  let clen ← tryU16 ciphertext.length "ciphertext too long"
  let out ← zeros 256
  let outLen := UInt16.ofNat out.length
  let reply ← chip.run
    (.rsaDecryptAndExport OPTIGA_RSAES_PKCS1_V15 ciphertext clen none 0 slot.raw out outLen)
  return truncate (reply.output 0 out) reply.len16

/-! ## Symmetric, MAC and key derivation -/

def Chip.hmac (kind : HmacType) (secretOid : UInt16) (data : List UInt8) :
    Effect Host Error (List UInt8) := do
  let dlen ← tryU32 data.length "data too long"
  let mac ← zeros kind.macLen
  let macLen := UInt32.ofNat mac.length
  let reply ← chip.run (.hmac kind.raw secretOid data dlen mac macLen)
  return truncate (reply.output 0 mac) reply.len32

def Chip.hkdf (kind : HkdfType) (secretOid : UInt16) (salt info : List UInt8) (len : UInt16) :
    Effect Host Error (List UInt8) := do
  let slen ← tryU16 salt.length "salt too long"
  let ilen ← tryU16 info.length "info too long"
  let out ← zeros len.toNat
  let reply ← chip.run (.hkdf kind.raw secretOid salt slen info ilen len 1 out)
  return reply.output 0 out

def Chip.tlsPrf (kind : TlsPrfType) (secretOid : UInt16) (label seed : List UInt8)
    (len : UInt16) : Effect Host Error (List UInt8) := do
  let llen ← tryU16 label.length "label too long"
  let slen ← tryU16 seed.length "seed too long"
  let out ← zeros len.toNat
  let reply ← chip.run (.tlsPrf kind.raw secretOid label llen seed slen len 1 out)
  return reply.output 0 out

def Chip.symmetricGenerateKey (keyType : SymmetricKeyType) (usage : KeyUsage) :
    Effect Host Error Unit := do
  let oid := KeyId.secretBased.raw
  let _ ← chip.run (.symmetricGenerateKey keyType.raw usage.bits 0 (.slot oid))
  return ()

def Chip.aesEcbEncrypt (plain : List UInt8) : Effect Host Error (List UInt8) := do
  let plen ← tryU32 plain.length "data too long"
  let out ← zeros plain.length
  let outLen := UInt32.ofNat out.length
  let reply ← chip.run (.symmetricEncryptEcb KeyId.secretBased.raw plain plen out outLen)
  return truncate (reply.output 0 out) reply.len32

def Chip.aesEcbDecrypt (cipher : List UInt8) : Effect Host Error (List UInt8) := do
  let clen ← tryU32 cipher.length "data too long"
  let out ← zeros cipher.length
  let outLen := UInt32.ofNat out.length
  let reply ← chip.run (.symmetricDecryptEcb KeyId.secretBased.raw cipher clen out outLen)
  return truncate (reply.output 0 out) reply.len32

end Methods

/-! ## All methods -/

/-- A call of a method with its arguments. -/
inductive Method where
  | readData (oid offset : UInt16)
  | writeData (oid : UInt16) (mode : WriteType) (offset : UInt16) (data : List UInt8)
  | readMetadata (oid : UInt16)
  | writeMetadata (oid : UInt16) (metadata : List UInt8)
  | updateCounter (oid : UInt16) (count : UInt8)
  | random (rng : RngType) (len : UInt16)
  | hashSha256 (data : List UInt8)
  | hashSha256Oid (oid offset len : UInt16)
  | eccGenerateKeypair (curve : EccCurve) (usage : KeyUsage) (slot : KeyId)
  | eccGenerateKeypairExported (curve : EccCurve)
  | ecdsaSign (slot : KeyId) (digest : List UInt8)
  | ecdsaVerify (curve : EccCurve) (publicKey digest signature : List UInt8)
  | ecdsaVerifyOid (publicKeyOid : UInt16) (digest signature : List UInt8)
  | ecdh (slot : KeyId) (curve : EccCurve) (peerPublicKey : List UInt8)
  | rsaGenerateKeypair (keyType : RsaKeyType) (usage : KeyUsage) (slot : KeyId)
  | rsaSign (scheme : RsaSignatureScheme) (slot : KeyId) (digest : List UInt8)
  | rsaVerify (scheme : RsaSignatureScheme) (keyType : RsaKeyType)
      (publicKey digest signature : List UInt8)
  | rsaEncrypt (keyType : RsaKeyType) (publicKey message : List UInt8)
  | rsaDecrypt (slot : KeyId) (ciphertext : List UInt8)
  | hmac (kind : HmacType) (secretOid : UInt16) (data : List UInt8)
  | hkdf (kind : HkdfType) (secretOid : UInt16) (salt info : List UInt8) (len : UInt16)
  | tlsPrf (kind : TlsPrfType) (secretOid : UInt16) (label seed : List UInt8) (len : UInt16)
  | symmetricGenerateKey (keyType : SymmetricKeyType) (usage : KeyUsage)
  | aesEcbEncrypt (plain : List UInt8)
  | aesEcbDecrypt (cipher : List UInt8)

/-- Run `x` and list what it returns. -/
def listing {α : Type} (results : α → List (List UInt8)) (x : Effect Host Error α) :
    Effect Host Error (List (List UInt8)) := do
  return results (← x)

def noBytes (_ : Unit) : List (List UInt8) := []

def oneVec (v : List UInt8) : List (List UInt8) := [v]

def twoVecs (p : List UInt8 × List UInt8) : List (List UInt8) := [p.1, p.2]

/-- The byte strings a method returns, after its run. -/
def Method.perform (chip : Chip) : Method → Effect Host Error (List (List UInt8))
  | .readData oid offset => listing oneVec (chip.readData oid offset)
  | .writeData oid mode offset data => listing noBytes (chip.writeData oid mode offset data)
  | .readMetadata oid => listing oneVec (chip.readMetadata oid)
  | .writeMetadata oid metadata => listing noBytes (chip.writeMetadata oid metadata)
  | .updateCounter oid count => listing noBytes (chip.updateCounter oid count)
  | .random rng len => listing oneVec (chip.random rng len)
  | .hashSha256 data => listing oneVec (chip.hashSha256 data)
  | .hashSha256Oid oid offset len => listing oneVec (chip.hashSha256Oid oid offset len)
  | .eccGenerateKeypair curve usage slot =>
    listing oneVec (chip.eccGenerateKeypair curve usage slot)
  | .eccGenerateKeypairExported curve => listing twoVecs (chip.eccGenerateKeypairExported curve)
  | .ecdsaSign slot digest => listing oneVec (chip.ecdsaSign slot digest)
  | .ecdsaVerify curve key digest sig => listing noBytes (chip.ecdsaVerify curve key digest sig)
  | .ecdsaVerifyOid oid digest sig => listing noBytes (chip.ecdsaVerifyOid oid digest sig)
  | .ecdh slot curve key => listing oneVec (chip.ecdh slot curve key)
  | .rsaGenerateKeypair keyType usage slot =>
    listing oneVec (chip.rsaGenerateKeypair keyType usage slot)
  | .rsaSign scheme slot digest => listing oneVec (chip.rsaSign scheme slot digest)
  | .rsaVerify scheme keyType key digest sig =>
    listing noBytes (chip.rsaVerify scheme keyType key digest sig)
  | .rsaEncrypt keyType key message => listing oneVec (chip.rsaEncrypt keyType key message)
  | .rsaDecrypt slot ciphertext => listing oneVec (chip.rsaDecrypt slot ciphertext)
  | .hmac kind oid data => listing oneVec (chip.hmac kind oid data)
  | .hkdf kind oid salt info len => listing oneVec (chip.hkdf kind oid salt info len)
  | .tlsPrf kind oid label seed len => listing oneVec (chip.tlsPrf kind oid label seed len)
  | .symmetricGenerateKey keyType usage => listing noBytes (chip.symmetricGenerateKey keyType usage)
  | .aesEcbEncrypt plain => listing oneVec (chip.aesEcbEncrypt plain)
  | .aesEcbDecrypt cipher => listing oneVec (chip.aesEcbDecrypt cipher)

end Trustm
