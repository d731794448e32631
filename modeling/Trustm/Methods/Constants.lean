import Trustm.Types

/-!
# Arguments of the library

The enumerations of `types.rs` with their `raw()` tables, and the constants of the generated
bindings that they and the methods read. A C enumeration is an unsigned 32-bit integer.
-/

namespace Trustm

/-! ## Constants of the bindings -/

def OPTIGA_DEVICE_ERROR : UInt32 := 32768

def OPTIGA_CRYPT_HOST_DATA : UInt32 := 1
def OPTIGA_CRYPT_OID_DATA : UInt32 := 0

def OPTIGA_UTIL_WRITE_ONLY : UInt32 := 0
def OPTIGA_UTIL_ERASE_AND_WRITE : UInt32 := 64

def OPTIGA_HASH_TYPE_SHA_256 : UInt32 := 226
def OPTIGA_RSAES_PKCS1_V15 : UInt32 := 17

/-! ## Enumerations -/

/-- Key slots on the chip. -/
inductive KeyId where
  | E0F0
  | E0F1
  | E0F2
  | E0F3
  | E0FC
  | E0FD
  /-- Symmetric (AES) key slot 0xE200. -/
  | secretBased
  /-- Volatile key from the current session. -/
  | sessionBased
  deriving DecidableEq, Repr

def KeyId.raw : KeyId → UInt32
  | .E0F0 => 57584
  | .E0F1 => 57585
  | .E0F2 => 57586
  | .E0F3 => 57587
  | .E0FC => 57596
  | .E0FD => 57597
  | .secretBased => 57856
  | .sessionBased => 0

/-- What a generated key may be used for, a set of bits. -/
structure KeyUsage where
  bits : UInt8
  deriving DecidableEq, Repr

def EccCurve.raw : EccCurve → UInt32
  | .nistP256 => 3
  | .nistP384 => 4
  | .nistP521 => 5
  | .brainpoolP256r1 => 19
  | .brainpoolP384r1 => 21
  | .brainpoolP512r1 => 22

inductive RsaKeyType where
  | rsa1024
  | rsa2048
  deriving DecidableEq, Repr

def RsaKeyType.raw : RsaKeyType → UInt32
  | .rsa1024 => 65
  | .rsa2048 => 66

def RsaKeyType.modulusLen : RsaKeyType → Nat
  | .rsa1024 => 128
  | .rsa2048 => 256

/-- RSASSA-PKCS1-v1_5 with the given digest. -/
inductive RsaSignatureScheme where
  | pkcs1v15Sha256
  | pkcs1v15Sha384
  | pkcs1v15Sha512
  deriving DecidableEq, Repr

def RsaSignatureScheme.raw : RsaSignatureScheme → UInt32
  | .pkcs1v15Sha256 => 1
  | .pkcs1v15Sha384 => 2
  | .pkcs1v15Sha512 => 3

inductive HmacType where
  | sha256
  | sha384
  | sha512
  deriving DecidableEq, Repr

def HmacType.raw : HmacType → UInt32
  | .sha256 => 32
  | .sha384 => 33
  | .sha512 => 34

def HmacType.macLen : HmacType → Nat
  | .sha256 => 32
  | .sha384 => 48
  | .sha512 => 64

inductive HkdfType where
  | sha256
  | sha384
  | sha512
  deriving DecidableEq, Repr

def HkdfType.raw : HkdfType → UInt32
  | .sha256 => 8
  | .sha384 => 9
  | .sha512 => 10

inductive TlsPrfType where
  | sha256
  | sha384
  | sha512
  deriving DecidableEq, Repr

def TlsPrfType.raw : TlsPrfType → UInt32
  | .sha256 => 1
  | .sha384 => 2
  | .sha512 => 3

inductive SymmetricKeyType where
  | aes128
  | aes192
  | aes256
  deriving DecidableEq, Repr

def SymmetricKeyType.raw : SymmetricKeyType → UInt32
  | .aes128 => 129
  | .aes192 => 130
  | .aes256 => 131

inductive RngType where
  /-- True random number generator. -/
  | trng
  /-- Deterministic RNG seeded from the TRNG. -/
  | drng
  deriving DecidableEq, Repr

def RngType.raw : RngType → UInt32
  | .trng => 0
  | .drng => 1

inductive WriteType where
  /-- Overwrite in place, keeping the rest of the object. -/
  | writeOnly
  /-- Erase the object, then write. -/
  | eraseAndWrite
  deriving DecidableEq, Repr

def WriteType.raw : WriteType → UInt8
  | .writeOnly => OPTIGA_UTIL_WRITE_ONLY.toUInt8
  | .eraseAndWrite => OPTIGA_UTIL_ERASE_AND_WRITE.toUInt8

/-! ## Casts -/

/-- The casts of constants to `u8` keep their value: the key types of host keys, the sources of
data and the write types. -/
structure CastsExact : Prop where
  curve : ∀ curve : EccCurve, curve.raw.toUInt8.toUInt32 = curve.raw
  rsaKeyType : ∀ keyType : RsaKeyType, keyType.raw.toUInt8.toUInt32 = keyType.raw
  source : ∀ c ∈ [OPTIGA_CRYPT_HOST_DATA, OPTIGA_CRYPT_OID_DATA, OPTIGA_UTIL_WRITE_ONLY,
    OPTIGA_UTIL_ERASE_AND_WRITE], c.toUInt8.toUInt32 = c

theorem castsExact : CastsExact := by
  refine ⟨?_, ?_, ?_⟩
  · intro curve
    cases curve <;> rfl
  · intro keyType
    cases keyType <;> rfl
  · intro c hc
    simp only [List.mem_cons, List.not_mem_nil, or_false] at hc
    rcases hc with rfl | rfl | rfl | rfl <;> rfl

end Trustm
