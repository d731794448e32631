import Trustm.Methods.Constants
import Trustm.Session.Process
import Trustm.Support.Effect

/-!
# Calls of the host library

One handle in one thread, as the methods of `Trustm` see it: every call of the C library with
all its arguments, and what the library answers.

* `LibCommand`: the commands `run` can issue, named and ordered as in the bindings; the instance
  they go to is left out. `LibCommand.Exact`: every length in a command is that of its buffer.
* `Chip`: the answer to each call, by its number. Since nothing is asked of the answers, a
  statement about every chip covers every behaviour of the library, the bus and the chip.
* `Chip.run`: `run` as a whole; `completion_iff` is the link to its steps in the process model.
-/

namespace Trustm

open Outcome Effect

/-! ## Commands -/

/-- `public_key_from_host_t` -/
structure PublicKeyFromHost where
  publicKey : List UInt8
  length : UInt16
  keyType : UInt8
  deriving DecidableEq, Repr

/-- What `public_key` points to, by the source type beside it. -/
inductive PublicKey where
  | host (key : PublicKeyFromHost)
  | oid (oid : UInt16)
  deriving DecidableEq, Repr

/-- `hash_data_from_host_t` and `hash_data_in_optiga_t` -/
inductive HashData where
  | host (buffer : List UInt8) (length : UInt32)
  | inOptiga (oid offset length : UInt16)
  deriving DecidableEq, Repr

/-- What `private_key` points to: a key id that is read, or a buffer that is written. -/
inductive PrivateKey where
  | slot (oid : UInt32)
  | buffer (bytes : List UInt8)
  deriving DecidableEq, Repr

/-- The asynchronous commands. An output buffer stands with its contents before the call, a
length that is passed by pointer with its value before the call, a null pointer as `none`. -/
inductive LibCommand where
  | openApplication (performRestore : UInt8)
  | closeApplication (performHibernate : UInt8)
  | readData (oid offset : UInt16) (buffer : List UInt8) (length : UInt16)
  | readMetadata (oid : UInt16) (buffer : List UInt8) (length : UInt16)
  | writeData (oid : UInt16) (writeType : UInt8) (offset : UInt16) (buffer : List UInt8)
      (length : UInt16)
  | writeMetadata (oid : UInt16) (buffer : List UInt8) (length : UInt8)
  | updateCount (counterOid : UInt16) (count : UInt8)
  | random (rngType : UInt32) (randomData : List UInt8) (randomDataLength : UInt16)
  | hash (hashAlgorithm : UInt32) (sourceOfDataToHash : UInt8) (dataToHash : HashData)
      (hashOutput : List UInt8)
  | eccGenerateKeypair (curveId : UInt32) (keyUsage exportPrivateKey : UInt8)
      (privateKey : PrivateKey) (publicKey : List UInt8) (publicKeyLength : UInt16)
  | ecdsaSign (digest : List UInt8) (digestLength : UInt8) (privateKey : UInt32)
      (signature : List UInt8) (signatureLength : UInt16)
  | ecdsaVerify (digest : List UInt8) (digestLength : UInt8) (signature : List UInt8)
      (signatureLength : UInt16) (publicKeySourceType : UInt8) (publicKey : PublicKey)
  | ecdh (privateKey : UInt32) (publicKey : PublicKeyFromHost) (exportToHost : UInt8)
      (sharedSecret : List UInt8)
  | rsaGenerateKeypair (keyType : UInt32) (keyUsage exportPrivateKey : UInt8)
      (privateKey : PrivateKey) (publicKey : List UInt8) (publicKeyLength : UInt16)
  | rsaSign (signatureScheme : UInt32) (digest : List UInt8) (digestLength : UInt8)
      (privateKey : UInt32) (signature : List UInt8) (signatureLength saltLength : UInt16)
  | rsaVerify (signatureScheme : UInt32) (digest : List UInt8) (digestLength : UInt8)
      (signature : List UInt8) (signatureLength : UInt16) (publicKeySourceType : UInt8)
      (publicKey : PublicKey) (saltLength : UInt16)
  | rsaEncryptMessage (encryptionScheme : UInt32) (message : List UInt8) (messageLength : UInt16)
      (label : Option (List UInt8)) (labelLength : UInt16) (publicKeySourceType : UInt8)
      (publicKey : PublicKey) (encryptedMessage : List UInt8) (encryptedMessageLength : UInt16)
  | rsaDecryptAndExport (encryptionScheme : UInt32) (encryptedMessage : List UInt8)
      (encryptedMessageLength : UInt16) (label : Option (List UInt8)) (labelLength : UInt16)
      (privateKey : UInt32) (message : List UInt8) (messageLength : UInt16)
  | hmac (type : UInt32) (secret : UInt16) (inputData : List UInt8) (inputDataLength : UInt32)
      (mac : List UInt8) (macLength : UInt32)
  | hkdf (type : UInt32) (secret : UInt16) (salt : List UInt8) (saltLength : UInt16)
      (info : List UInt8) (infoLength derivedKeyLength : UInt16) (exportToHost : UInt8)
      (derivedKey : List UInt8)
  | tlsPrf (type : UInt32) (secret : UInt16) (label : List UInt8) (labelLength : UInt16)
      (seed : List UInt8) (seedLength derivedKeyLength : UInt16) (exportToHost : UInt8)
      (derivedKey : List UInt8)
  | symmetricGenerateKey (keyType : UInt32) (keyUsage exportSymmetricKey : UInt8)
      (symmetricKey : PrivateKey)
  | symmetricEncryptEcb (symmetricKeyOid : UInt32) (plainData : List UInt8)
      (plainDataLength : UInt32) (encryptedData : List UInt8) (encryptedDataLength : UInt32)
  | symmetricDecryptEcb (symmetricKeyOid : UInt32) (encryptedData : List UInt8)
      (encryptedDataLength : UInt32) (plainData : List UInt8) (plainDataLength : UInt32)
  deriving DecidableEq, Repr

/-- A length argument or pointed-to capacity, and the bytes behind the pointer it belongs to. -/
abbrev Span := Nat × List UInt8

def PublicKeyFromHost.span (key : PublicKeyFromHost) : Span := (key.length.toNat, key.publicKey)

def PublicKey.spans : PublicKey → List Span
  | .host key => [key.span]
  | .oid _ => []

def HashData.spans : HashData → List Span
  | .host buffer length => [(length.toNat, buffer)]
  | .inOptiga _ _ _ => []

/-- A null label has no bytes to measure. -/
def labelSpans (label : Option (List UInt8)) (length : UInt16) : List Span :=
  label.toList.map fun bytes => (length.toNat, bytes)

def LibCommand.spans : LibCommand → List Span
  | .readData _ _ buffer length => [(length.toNat, buffer)]
  | .readMetadata _ buffer length => [(length.toNat, buffer)]
  | .writeData _ _ _ buffer length => [(length.toNat, buffer)]
  | .writeMetadata _ buffer length => [(length.toNat, buffer)]
  | .random _ buffer length => [(length.toNat, buffer)]
  | .hash _ _ data _ => data.spans
  | .eccGenerateKeypair _ _ _ _ key length => [(length.toNat, key)]
  | .ecdsaSign digest dlen _ sig slen => [(dlen.toNat, digest), (slen.toNat, sig)]
  | .ecdsaVerify digest dlen sig slen _ key =>
    [(dlen.toNat, digest), (slen.toNat, sig)] ++ key.spans
  | .ecdh _ key _ _ => [key.span]
  | .rsaGenerateKeypair _ _ _ _ key length => [(length.toNat, key)]
  | .rsaSign _ digest dlen _ sig slen _ => [(dlen.toNat, digest), (slen.toNat, sig)]
  | .rsaVerify _ digest dlen sig slen _ key _ =>
    [(dlen.toNat, digest), (slen.toNat, sig)] ++ key.spans
  | .rsaEncryptMessage _ message mlen label llen _ key out olen =>
    [(mlen.toNat, message), (olen.toNat, out)] ++ labelSpans label llen ++ key.spans
  | .rsaDecryptAndExport _ message mlen label llen _ out olen =>
    [(mlen.toNat, message), (olen.toNat, out)] ++ labelSpans label llen
  | .hmac _ _ data dlen mac mlen => [(dlen.toNat, data), (mlen.toNat, mac)]
  | .hkdf _ _ salt slen info ilen klen _ key =>
    [(slen.toNat, salt), (ilen.toNat, info), (klen.toNat, key)]
  | .tlsPrf _ _ label llen seed slen klen _ key =>
    [(llen.toNat, label), (slen.toNat, seed), (klen.toNat, key)]
  | .symmetricEncryptEcb _ plain plen out olen => [(plen.toNat, plain), (olen.toNat, out)]
  | .symmetricDecryptEcb _ cipher clen out olen => [(clen.toNat, cipher), (olen.toNat, out)]
  | .openApplication _ | .closeApplication _ | .updateCount _ _ | .symmetricGenerateKey _ _ _ _ =>
    []

/-- No length in the command says more or less than there is. -/
def LibCommand.Exact (c : LibCommand) : Prop := ∀ p ∈ c.spans, p.1 = p.2.length

def PrivateKey.outputs : PrivateKey → List (List UInt8)
  | .slot _ => []
  | .buffer bytes => [bytes]

/-- The buffers the library writes its results to, in the order of the arguments. -/
def LibCommand.outputs : LibCommand → List (List UInt8)
  | .readData _ _ buffer _ | .readMetadata _ buffer _ | .random _ buffer _ => [buffer]
  | .hash _ _ _ out => [out]
  | .eccGenerateKeypair _ _ _ priv pub _ | .rsaGenerateKeypair _ _ _ priv pub _ =>
    priv.outputs ++ [pub]
  | .ecdsaSign _ _ _ sig _ | .rsaSign _ _ _ _ sig _ _ => [sig]
  | .ecdh _ _ _ secret => [secret]
  | .rsaEncryptMessage _ _ _ _ _ _ _ out _ | .rsaDecryptAndExport _ _ _ _ _ _ out _ => [out]
  | .hmac _ _ _ _ mac _ => [mac]
  | .hkdf _ _ _ _ _ _ _ _ key | .tlsPrf _ _ _ _ _ _ _ _ key => [key]
  | .symmetricEncryptEcb _ _ _ out _ | .symmetricDecryptEcb _ _ _ out _ => [out]
  | .openApplication _ | .closeApplication _ | .writeData _ _ _ _ _ | .writeMetadata _ _ _
  | .updateCount _ _ | .ecdsaVerify _ _ _ _ _ _ | .rsaVerify _ _ _ _ _ _ _ _
  | .symmetricGenerateKey _ _ _ _ => []

/-- Every call of the library. -/
inductive LibCall where
  | configure (dev : List UInt8) (addr : UInt8)
  | utilCreate
  | cryptCreate
  | utilDestroy
  | cryptDestroy
  | command (c : LibCommand)
  deriving DecidableEq, Repr

/-! ## Answers -/

/-- How a command ends, as far as `run` sees it. -/
inductive Completion where
  /-- The call itself returns an error code. -/
  | refused (code : UInt16) (h : code ≠ 0)
  /-- The callback stores a status. -/
  | completed (status : UInt16) (h : status ≠ busyStatus)
  /-- No status is stored before the timeout. -/
  | silent
  deriving DecidableEq

def Completion.result : Completion → Result Unit
  | .refused code _ => Error.fromStatus code
  | .completed status _ => Error.fromStatus status
  | .silent => .error .timeout

/-- A command fails with a status word or a timeout. -/
theorem Completion.error_cases {c : Completion} {e : Error} (h : c.result = .error e) :
    (∃ code, e = .status code) ∨ e = .timeout := by
  cases c with
  | refused code hcode => exact Or.inl ⟨code, fromStatus_eq_error h⟩
  | completed status hstatus => exact Or.inl ⟨status, fromStatus_eq_error h⟩
  | silent => exact Or.inr (Except.error.inj h).symm

/-- What `run` leaves in `STATUS`. -/
def Completion.STATUS : Completion → UInt16
  | .completed status _ => status
  | .refused _ _ | .silent => busyStatus

/-- A call that creates an instance reads `null`, a command the other fields. -/
structure Reply where
  null : Bool
  completion : Completion
  /-- What the library writes to the output buffers, one after the other. -/
  written : List (List UInt8)
  /-- What it leaves in a pointed-to length; a 16-bit length holds the low half. -/
  length : UInt32
  deriving DecidableEq

/-- Output buffer `i`, which held `buf`, after the call: the library keeps to its bounds. -/
def Reply.output (r : Reply) (i : Nat) (buf : List UInt8) : List UInt8 :=
  let bytes := r.written.getD i []
  bytes.take buf.length ++ buf.drop bytes.length

@[simp] theorem Reply.length_output (r : Reply) (i : Nat) (buf : List UInt8) :
    (r.output i buf).length = buf.length := by
  rw [Reply.output, List.length_append, List.length_take, List.length_drop]
  omega

/-- `vec.truncate(len)` -/
def truncate (vec : List UInt8) (len : Nat) : List UInt8 := vec.take len

theorem length_truncate_le (vec : List UInt8) (len : Nat) :
    (truncate vec len).length ≤ vec.length :=
  List.length_take_le' len vec

structure Chip where
  reply : Nat → Reply

/-! ## The host -/

/-- The two statics and the calls made so far with their answers. -/
structure Host where
  OPEN : Bool
  STATUS : UInt16
  calls : List (LibCall × Reply)
  deriving DecidableEq

def Host.start : Host := ⟨false, 0, []⟩

/-- The host behind one more call. -/
def Host.called (s : Host) (c : LibCall) (r : Reply) : Host :=
  { s with calls := s.calls ++ [(c, r)] }

/-- The host behind one more `run`. -/
def Host.ran (s : Host) (c : LibCommand) (r : Reply) : Host :=
  { s with STATUS := r.completion.STATUS, calls := s.calls ++ [(.command c, r)] }

theorem Host.length_called (s : Host) (c : LibCall) (r : Reply) :
    (s.called c r).calls.length = s.calls.length + 1 := List.length_append

theorem Host.length_ran (s : Host) (c : LibCommand) (r : Reply) :
    (s.ran c r).calls.length = s.calls.length + 1 := List.length_append

variable (chip : Chip)

/-- The answer to the next call. -/
def Chip.next (s : Host) : Reply := chip.reply s.calls.length

def Chip.call (c : LibCall) : Effect Host Error Reply := fun s =>
  (.ok (chip.next s), s.called c (chip.next s))

/-- `run`: store `BUSY`, issue the command, wait for its end. The answer comes along with `Ok`,
for the buffers the command had pointers to. -/
def Chip.run (c : LibCommand) : Effect Host Error Reply := do
  modify fun s => { s with STATUS := busyStatus }
  let reply ← chip.call (.command c)
  modify fun s => { s with STATUS := reply.completion.STATUS }
  lift (ofExcept reply.completion.result)
  return reply

theorem Chip.run_of_ok {c : LibCommand} {s : Host}
    (h : (chip.next s).completion.result = .ok ()) :
    chip.run c s = (.ok (chip.next s), s.ran c (chip.next s)) := by
  change Effect.bind (lift (ofExcept (chip.next s).completion.result)) _ _ = _
  rw [h]
  rfl

theorem Chip.run_of_error {c : LibCommand} {s : Host} {e : Error}
    (h : (chip.next s).completion.result = .error e) :
    chip.run c s = (.err e, s.ran c (chip.next s)) := by
  change Effect.bind (lift (ofExcept (chip.next s).completion.result)) _ _ = _
  rw [h]
  rfl

/-! ## The steps of `run` -/

/-- The completions are the results that the steps of `run` can end with, whatever the instance
and the buffers. -/
theorem completion_iff (x : Inst) (bufs : List Nat) (result : Result Unit) :
    (∃ pc o, RunPc.next x bufs pc o = some (.inr result)) ↔
      ∃ c : Completion, c.result = result := by
  constructor
  · rintro ⟨pc, o, h⟩
    unfold RunPc.next at h
    split at h
    · cases h
    · split at h <;> cases h
    · rename_i y code
      split at h
      · rename_i hcode
        have hne : code ≠ 0 := fun hzero => hcode.2 ((fromStatus_eq_ok_iff code).mpr hzero)
        exact ⟨.refused code hne, Sum.inr.inj (Option.some.inj h)⟩
      · cases h
    · cases h
    · rename_i st
      split at h
      · rename_i hst
        have hne : st ≠ busyStatus := fun heq => hst ((toUInt32_eq_busy_iff st).mpr heq)
        exact ⟨.completed st hne, Sum.inr.inj (Option.some.inj h)⟩
      · cases h
    · exact ⟨.silent, Sum.inr.inj (Option.some.inj h)⟩
    · cases h
    · cases h
  · rintro ⟨c, rfl⟩
    cases c with
    | refused code h =>
      refine ⟨.call, .reject x code, ?_⟩
      exact if_pos ⟨rfl, fun hok => h ((fromStatus_eq_ok_iff code).mp hok)⟩
    | completed st h =>
      refine ⟨.poll ⟨0, x, bufs⟩, .load st, ?_⟩
      exact if_pos fun heq => h ((toUInt32_eq_busy_iff st).mp heq)
    | silent => exact ⟨.check ⟨0, x, bufs⟩, .clock true, rfl⟩

end Trustm
