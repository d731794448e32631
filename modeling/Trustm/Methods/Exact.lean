import Trustm.Methods.Calls

/-!
# Lengths across the interface

A method that rejects its arguments does so before it touches anything. Otherwise it issues one
command, every length in the command is that of the buffer it stands for, and what the method
returns fits into the buffers it handed out.

* `Transferred` says this of the end of a method, `transferred_...` are the rules for the steps
  the methods are made of.
* `perform_exact` collects the methods.
-/

namespace Trustm

open Outcome Effect

variable {α β : Type} {s : Host} {results : α → List (List UInt8)}

/-- The vectors of a result are no longer than the buffers of the command. -/
def Fits (vs : List (List UInt8)) (c : LibCommand) : Prop :=
  List.Forall₂ (fun v buf => v.length ≤ buf.length) vs c.outputs

/-- The end of a method behind its command: a result that fits, or an error of the library or
in its data. -/
structure Delivered (c : LibCommand) (results : α → List (List UInt8)) (r : Outcome Error α) :
    Prop where
  settled : r ≠ .panic
  accepted : ∀ what, r ≠ .err (.invalidArgument what)
  fits : ∀ a, r = .ok a → Fits (results a) c

/-- The end of a method that began in `s`. -/
def Transferred (s : Host) (results : α → List (List UInt8)) (r : Outcome Error α) (t : Host) :
    Prop :=
  ((∃ what, r = .err (.invalidArgument what)) ∧ t = s) ∨
    ∃ c reply, t = s.ran c reply ∧ c.Exact ∧ Delivered c results r

/-! ## Ends -/

theorem Delivered.value {c : LibCommand} {a : α} (h : Fits (results a) c) :
    Delivered c results (.ok a) := by
  refine ⟨by simp, by simp, ?_⟩
  intro b hb
  rwa [← Outcome.ok.inj hb]

theorem Delivered.error {c : LibCommand} {e : Error} (h : ∀ what, e ≠ .invalidArgument what) :
    Delivered c results (.err e) := by
  refine ⟨by simp, ?_, by simp⟩
  intro what heq
  exact h what (Outcome.err.inj heq)

/-- Neither a status word nor a timeout is about the arguments. -/
theorem Delivered.failure {c : LibCommand} {k : Completion} {e : Error}
    (h : k.result = .error e) : Delivered c results (.err e) := by
  apply Delivered.error
  intro what
  rcases k.error_cases h with ⟨code, rfl⟩ | rfl <;> simp

theorem fits_none {c : LibCommand} (h : c.outputs = []) : Fits [] c := by
  rw [Fits, h]
  exact List.Forall₂.nil

theorem fits_one {c : LibCommand} {v buf : List UInt8} (hc : c.outputs = [buf])
    (h : v.length ≤ buf.length) : Fits [v] c := by
  rw [Fits, hc]
  exact List.Forall₂.cons h List.Forall₂.nil

/-! ## Steps -/

theorem transferred_invalid (what : String) :
    (lift (.err (.invalidArgument what)) : Effect Host Error α).Ensures s
      (Transferred s results) :=
  Or.inl ⟨⟨what, rfl⟩, rfl⟩

/-- A converted length is the length itself. -/
theorem transferred_tryFrom {γ : Type} {size : Nat} {ofNat : Nat → γ} {toNat : γ → Nat}
    (hround : ∀ n < size, toNat (ofNat n) = n) {n : Nat} {what : String}
    {f : γ → Effect Host Error α}
    (h : ∀ len, toNat len = n → (f len).Ensures s (Transferred s results)) :
    (tryFrom size ofNat n what >>= f).Ensures s (Transferred s results) := by
  by_cases hn : n < size
  · rw [tryFrom_bind hn]
    exact h _ (hround n hn)
  · rw [tryFrom, if_neg hn]
    exact transferred_invalid what

theorem transferred_tryU8 {n : Nat} {what : String} {f : UInt8 → Effect Host Error α}
    (h : ∀ len, len.toNat = n → (f len).Ensures s (Transferred s results)) :
    (tryU8 n what >>= f).Ensures s (Transferred s results) :=
  transferred_tryFrom (fun _ hn => UInt8.toNat_ofNat_of_lt' hn) h

theorem transferred_tryU16 {n : Nat} {what : String} {f : UInt16 → Effect Host Error α}
    (h : ∀ len, len.toNat = n → (f len).Ensures s (Transferred s results)) :
    (tryU16 n what >>= f).Ensures s (Transferred s results) :=
  transferred_tryFrom (fun _ hn => UInt16.toNat_ofNat_of_lt' hn) h

theorem transferred_tryU32 {n : Nat} {what : String} {f : UInt32 → Effect Host Error α}
    (h : ∀ len, len.toNat = n → (f len).Ensures s (Transferred s results)) :
    (tryU32 n what >>= f).Ensures s (Transferred s results) :=
  transferred_tryFrom (fun _ hn => UInt32.toNat_ofNat_of_lt' hn) h

/-- No buffer of a method is too large to allocate. -/
theorem transferred_zeros {n : Nat} (hn : n < 2 ^ 32) {f : List UInt8 → Effect Host Error α}
    (h : ∀ buf, buf.length = n → (f buf).Ensures s (Transferred s results)) :
    (zeros n >>= f).Ensures s (Transferred s results) := by
  rw [zeros_bind hn]
  exact h _ List.length_replicate

/-- The command is issued once; an error of the library ends the method. -/
theorem transferred_run {chip : Chip} {c : LibCommand} (hc : c.Exact)
    {f : Reply → Effect Host Error α}
    (h : ∀ reply t, ∃ r, f reply t = (r, t) ∧ Delivered c results r) :
    (chip.run c >>= f).Ensures s (Transferred s results) := by
  unfold Effect.Ensures
  cases hresult : (chip.next s).completion.result with
  | ok u =>
    obtain ⟨r, hr, hdelivered⟩ := h (chip.next s) (s.ran c (chip.next s))
    rw [bind_of_ok (chip.run_of_ok hresult), hr]
    exact Or.inr ⟨c, chip.next s, rfl, hc, hdelivered⟩
  | error e =>
    rw [bind_of_err (chip.run_of_error hresult)]
    exact Or.inr ⟨c, chip.next s, rfl, hc, Delivered.failure hresult⟩

theorem transferred_unit {chip : Chip} {c : LibCommand} (hc : c.Exact) (hout : c.outputs = []) :
    (chip.run c >>= fun _ => pure ()).Ensures s (Transferred s noBytes) :=
  transferred_run hc fun _ _ => ⟨.ok (), rfl, Delivered.value (fits_none hout)⟩

theorem transferred_array {chip : Chip} {c : LibCommand} {buf : List UInt8} (hc : c.Exact)
    (hout : c.outputs = [buf]) :
    (chip.run c >>= fun reply => pure (reply.output 0 buf)).Ensures s (Transferred s oneVec) :=
  transferred_run hc fun reply _ =>
    ⟨.ok _, rfl, Delivered.value (fits_one hout (reply.length_output 0 buf).le)⟩

theorem transferred_vec {chip : Chip} {c : LibCommand} {buf : List UInt8} (len : Reply → Nat)
    (hc : c.Exact) (hout : c.outputs = [buf]) :
    (chip.run c >>= fun reply => pure (truncate (reply.output 0 buf) (len reply))).Ensures s
      (Transferred s oneVec) := by
  apply transferred_run hc
  intro reply t
  have hle : (truncate (reply.output 0 buf) (len reply)).length ≤ buf.length :=
    (length_truncate_le _ _).trans (reply.length_output 0 buf).le
  exact ⟨.ok _, rfl, Delivered.value (fits_one hout hle)⟩

theorem transferred_listing {x : Effect Host Error α}
    (h : x.Ensures s (Transferred s results)) :
    (listing results x).Ensures s (Transferred s id) := by
  apply h.bind
  · rintro a t (⟨⟨what, hwhat⟩, _⟩ | ⟨c, reply, rfl, hc, hdelivered⟩)
    · cases hwhat
    · exact Or.inr ⟨c, reply, rfl, hc, Delivered.value (hdelivered.fits a rfl)⟩
  · rintro e t (⟨⟨what, hwhat⟩, rfl⟩ | ⟨c, reply, rfl, hc, hdelivered⟩)
    · exact Or.inl ⟨⟨what, by rw [Outcome.err.inj hwhat]⟩, rfl⟩
    · refine Or.inr ⟨c, reply, rfl, hc, Delivered.error ?_⟩
      intro what heq
      exact hdelivered.accepted what (by rw [heq])
  · rintro t (⟨⟨what, hwhat⟩, _⟩ | ⟨c, reply, _, _, hdelivered⟩)
    · cases hwhat
    · exact absurd rfl hdelivered.settled

/-! ## Methods -/

section Methods

variable (chip : Chip)

theorem Chip.readData_transferred (oid offset : UInt16) :
    (chip.readData oid offset).Ensures s (Transferred s oneVec) := by
  apply transferred_zeros (by decide)
  intro buf hbuf
  apply transferred_vec Reply.len16 _ rfl
  simp [LibCommand.Exact, LibCommand.spans, hbuf]

theorem Chip.writeData_transferred (oid : UInt16) (mode : WriteType) (offset : UInt16)
    (data : List UInt8) :
    (chip.writeData oid mode offset data).Ensures s (Transferred s noBytes) := by
  apply transferred_tryU16
  intro len hlen
  apply transferred_unit _ rfl
  simp [LibCommand.Exact, LibCommand.spans, hlen]

theorem Chip.readMetadata_transferred (oid : UInt16) :
    (chip.readMetadata oid).Ensures s (Transferred s oneVec) := by
  apply transferred_zeros (by decide)
  intro buf hbuf
  apply transferred_vec Reply.len16 _ rfl
  simp [LibCommand.Exact, LibCommand.spans, hbuf]

theorem Chip.writeMetadata_transferred (oid : UInt16) (metadata : List UInt8) :
    (chip.writeMetadata oid metadata).Ensures s (Transferred s noBytes) := by
  apply transferred_tryU8
  intro len hlen
  apply transferred_unit _ rfl
  simp [LibCommand.Exact, LibCommand.spans, hlen]

theorem Chip.updateCounter_transferred (oid : UInt16) (count : UInt8) :
    (chip.updateCounter oid count).Ensures s (Transferred s noBytes) := by
  apply transferred_unit _ rfl
  simp [LibCommand.Exact, LibCommand.spans]

theorem Chip.random_transferred (rng : RngType) (len : UInt16) :
    (chip.random rng len).Ensures s (Transferred s oneVec) := by
  unfold Chip.random
  by_cases hlen : 8 ≤ len ∧ len ≤ 256
  · rw [if_neg (not_not.mpr hlen)]
    have hbound := len.toNat_lt
    apply transferred_zeros (by omega)
    intro buf hbuf
    apply transferred_array _ rfl
    simp [LibCommand.Exact, LibCommand.spans, hbuf]
  · rw [if_pos hlen]
    exact transferred_invalid _

theorem Chip.hashSha256_transferred (data : List UInt8) :
    (chip.hashSha256 data).Ensures s (Transferred s oneVec) := by
  apply transferred_tryU32
  intro len hlen
  apply transferred_array _ rfl
  simp [LibCommand.Exact, LibCommand.spans, HashData.spans, hlen]

theorem Chip.hashSha256Oid_transferred (oid offset len : UInt16) :
    (chip.hashSha256Oid oid offset len).Ensures s (Transferred s oneVec) := by
  apply transferred_array _ rfl
  simp [LibCommand.Exact, LibCommand.spans, HashData.spans]

theorem Chip.eccGenerateKeypair_transferred (curve : EccCurve) (usage : KeyUsage)
    (slot : KeyId) :
    (chip.eccGenerateKeypair curve usage slot).Ensures s (Transferred s oneVec) := by
  apply transferred_zeros (by decide)
  intro buf hbuf
  apply transferred_vec Reply.len16 _ rfl
  simp [LibCommand.Exact, LibCommand.spans, hbuf]

/-- Both keys come from the command, the private key as far as its header says. -/
theorem Chip.eccGenerateKeypairExported_transferred (curve : EccCurve) :
    (chip.eccGenerateKeypairExported curve).Ensures s (Transferred s twoVecs) := by
  apply transferred_zeros (by decide)
  intro priv _
  apply transferred_zeros (by decide)
  intro pub hpub
  apply transferred_run
  · simp [LibCommand.Exact, LibCommand.spans, hpub]
  · intro reply t
    cases hlen : derLen (reply.output 0 priv) with
    | none => exact ⟨.err (.badData "private key DER"), rfl, Delivered.error (by simp)⟩
    | some privLen =>
      have hpriv : (truncate (reply.output 0 priv) privLen).length ≤ priv.length :=
        (length_truncate_le _ _).trans (reply.length_output 0 priv).le
      have hpub : (truncate (reply.output 1 pub) reply.len16).length ≤ pub.length :=
        (length_truncate_le _ _).trans (reply.length_output 1 pub).le
      refine ⟨.ok (truncate (reply.output 0 priv) privLen,
        truncate (reply.output 1 pub) reply.len16), rfl, Delivered.value ?_⟩
      exact List.Forall₂.cons hpriv (List.Forall₂.cons hpub List.Forall₂.nil)

theorem Chip.ecdsaSign_transferred (slot : KeyId) (digest : List UInt8) :
    (chip.ecdsaSign slot digest).Ensures s (Transferred s oneVec) := by
  apply transferred_tryU8
  intro dlen hdlen
  apply transferred_zeros (by decide)
  intro buf hbuf
  apply transferred_vec Reply.len16 _ rfl
  simp [LibCommand.Exact, LibCommand.spans, hdlen, hbuf]

theorem Chip.ecdsaVerify_transferred (curve : EccCurve) (publicKey digest signature : List UInt8) :
    (chip.ecdsaVerify curve publicKey digest signature).Ensures s (Transferred s noBytes) := by
  apply transferred_tryU8
  intro dlen hdlen
  apply transferred_tryU16
  intro slen hslen
  apply transferred_tryU16
  intro klen hklen
  apply transferred_unit _ rfl
  simp [LibCommand.Exact, LibCommand.spans, PublicKey.spans, PublicKeyFromHost.span, hdlen, hslen,
    hklen]

theorem Chip.ecdsaVerifyOid_transferred (publicKeyOid : UInt16) (digest signature : List UInt8) :
    (chip.ecdsaVerifyOid publicKeyOid digest signature).Ensures s (Transferred s noBytes) := by
  apply transferred_tryU8
  intro dlen hdlen
  apply transferred_tryU16
  intro slen hslen
  apply transferred_unit _ rfl
  simp [LibCommand.Exact, LibCommand.spans, PublicKey.spans, hdlen, hslen]

theorem Chip.ecdh_transferred (slot : KeyId) (curve : EccCurve) (peerPublicKey : List UInt8) :
    (chip.ecdh slot curve peerPublicKey).Ensures s (Transferred s oneVec) := by
  apply transferred_tryU16
  intro klen hklen
  apply transferred_zeros (by cases curve <;> decide)
  intro buf hbuf
  apply transferred_array _ rfl
  simp [LibCommand.Exact, LibCommand.spans, PublicKeyFromHost.span, hklen]

theorem Chip.rsaGenerateKeypair_transferred (keyType : RsaKeyType) (usage : KeyUsage)
    (slot : KeyId) :
    (chip.rsaGenerateKeypair keyType usage slot).Ensures s (Transferred s oneVec) := by
  apply transferred_zeros (by decide)
  intro buf hbuf
  apply transferred_vec Reply.len16 _ rfl
  simp [LibCommand.Exact, LibCommand.spans, hbuf]

theorem Chip.rsaSign_transferred (scheme : RsaSignatureScheme) (slot : KeyId)
    (digest : List UInt8) :
    (chip.rsaSign scheme slot digest).Ensures s (Transferred s oneVec) := by
  apply transferred_tryU8
  intro dlen hdlen
  apply transferred_zeros (by decide)
  intro buf hbuf
  apply transferred_vec Reply.len16 _ rfl
  simp [LibCommand.Exact, LibCommand.spans, hdlen, hbuf]

theorem Chip.rsaVerify_transferred (scheme : RsaSignatureScheme) (keyType : RsaKeyType)
    (publicKey digest signature : List UInt8) :
    (chip.rsaVerify scheme keyType publicKey digest signature).Ensures s
      (Transferred s noBytes) := by
  apply transferred_tryU8
  intro dlen hdlen
  apply transferred_tryU16
  intro slen hslen
  apply transferred_tryU16
  intro klen hklen
  apply transferred_unit _ rfl
  simp [LibCommand.Exact, LibCommand.spans, PublicKey.spans, PublicKeyFromHost.span, hdlen, hslen,
    hklen]

theorem Chip.rsaEncrypt_transferred (keyType : RsaKeyType) (publicKey message : List UInt8) :
    (chip.rsaEncrypt keyType publicKey message).Ensures s (Transferred s oneVec) := by
  apply transferred_tryU16
  intro mlen hmlen
  apply transferred_tryU16
  intro klen hklen
  apply transferred_zeros (by cases keyType <;> decide)
  intro buf hbuf
  have hcapacity : (UInt16.ofNat buf.length).toNat = buf.length := by
    rw [hbuf]
    cases keyType <;> rfl
  apply transferred_vec Reply.len16 _ rfl
  simp [LibCommand.Exact, LibCommand.spans, PublicKey.spans, PublicKeyFromHost.span, labelSpans,
    hmlen, hklen, hcapacity]

theorem Chip.rsaDecrypt_transferred (slot : KeyId) (ciphertext : List UInt8) :
    (chip.rsaDecrypt slot ciphertext).Ensures s (Transferred s oneVec) := by
  apply transferred_tryU16
  intro clen hclen
  apply transferred_zeros (by decide)
  intro buf hbuf
  apply transferred_vec Reply.len16 _ rfl
  simp [LibCommand.Exact, LibCommand.spans, labelSpans, hclen, hbuf]

theorem Chip.hmac_transferred (kind : HmacType) (secretOid : UInt16) (data : List UInt8) :
    (chip.hmac kind secretOid data).Ensures s (Transferred s oneVec) := by
  apply transferred_tryU32
  intro dlen hdlen
  apply transferred_zeros (by cases kind <;> decide)
  intro buf hbuf
  have hcapacity : (UInt32.ofNat buf.length).toNat = buf.length := by
    rw [hbuf]
    cases kind <;> rfl
  apply transferred_vec Reply.len32 _ rfl
  simp [LibCommand.Exact, LibCommand.spans, hdlen, hcapacity]

theorem Chip.hkdf_transferred (kind : HkdfType) (secretOid : UInt16) (salt info : List UInt8)
    (len : UInt16) :
    (chip.hkdf kind secretOid salt info len).Ensures s (Transferred s oneVec) := by
  have hbound := len.toNat_lt
  apply transferred_tryU16
  intro slen hslen
  apply transferred_tryU16
  intro ilen hilen
  apply transferred_zeros (by omega)
  intro buf hbuf
  apply transferred_array _ rfl
  simp [LibCommand.Exact, LibCommand.spans, hslen, hilen, hbuf]

theorem Chip.tlsPrf_transferred (kind : TlsPrfType) (secretOid : UInt16)
    (label seed : List UInt8) (len : UInt16) :
    (chip.tlsPrf kind secretOid label seed len).Ensures s (Transferred s oneVec) := by
  have hbound := len.toNat_lt
  apply transferred_tryU16
  intro llen hllen
  apply transferred_tryU16
  intro slen hslen
  apply transferred_zeros (by omega)
  intro buf hbuf
  apply transferred_array _ rfl
  simp [LibCommand.Exact, LibCommand.spans, hllen, hslen, hbuf]

theorem Chip.symmetricGenerateKey_transferred (keyType : SymmetricKeyType) (usage : KeyUsage) :
    (chip.symmetricGenerateKey keyType usage).Ensures s (Transferred s noBytes) := by
  apply transferred_unit _ rfl
  simp [LibCommand.Exact, LibCommand.spans]

/-- The output buffer of AES-ECB is as long as its input, which a `u32` can count. -/
theorem Chip.aesEcbEncrypt_transferred (plain : List UInt8) :
    (chip.aesEcbEncrypt plain).Ensures s (Transferred s oneVec) := by
  apply transferred_tryU32
  intro plen hplen
  have hbound := plen.toNat_lt
  apply transferred_zeros (by omega)
  intro buf hbuf
  have hcapacity : (UInt32.ofNat buf.length).toNat = buf.length := by
    rw [hbuf, ← hplen, UInt32.ofNat_toNat]
  apply transferred_vec Reply.len32 _ rfl
  simp [LibCommand.Exact, LibCommand.spans, hplen, hcapacity]

theorem Chip.aesEcbDecrypt_transferred (cipher : List UInt8) :
    (chip.aesEcbDecrypt cipher).Ensures s (Transferred s oneVec) := by
  apply transferred_tryU32
  intro clen hclen
  have hbound := clen.toNat_lt
  apply transferred_zeros (by omega)
  intro buf hbuf
  have hcapacity : (UInt32.ofNat buf.length).toNat = buf.length := by
    rw [hbuf, ← hclen, UInt32.ofNat_toNat]
  apply transferred_vec Reply.len32 _ rfl
  simp [LibCommand.Exact, LibCommand.spans, hclen, hcapacity]

/-- Every method rejects its arguments before it touches the host, or issues one command. -/
theorem Method.perform_transferred (m : Method) :
    (m.perform chip).Ensures s (Transferred s id) := by
  cases m with
  | readData oid offset => exact transferred_listing (chip.readData_transferred oid offset)
  | writeData oid mode offset data =>
    exact transferred_listing (chip.writeData_transferred oid mode offset data)
  | readMetadata oid => exact transferred_listing (chip.readMetadata_transferred oid)
  | writeMetadata oid metadata =>
    exact transferred_listing (chip.writeMetadata_transferred oid metadata)
  | updateCounter oid count => exact transferred_listing (chip.updateCounter_transferred oid count)
  | random rng len => exact transferred_listing (chip.random_transferred rng len)
  | hashSha256 data => exact transferred_listing (chip.hashSha256_transferred data)
  | hashSha256Oid oid offset len =>
    exact transferred_listing (chip.hashSha256Oid_transferred oid offset len)
  | eccGenerateKeypair curve usage slot =>
    exact transferred_listing (chip.eccGenerateKeypair_transferred curve usage slot)
  | eccGenerateKeypairExported curve =>
    exact transferred_listing (chip.eccGenerateKeypairExported_transferred curve)
  | ecdsaSign slot digest => exact transferred_listing (chip.ecdsaSign_transferred slot digest)
  | ecdsaVerify curve key digest sig =>
    exact transferred_listing (chip.ecdsaVerify_transferred curve key digest sig)
  | ecdsaVerifyOid oid digest sig =>
    exact transferred_listing (chip.ecdsaVerifyOid_transferred oid digest sig)
  | ecdh slot curve key => exact transferred_listing (chip.ecdh_transferred slot curve key)
  | rsaGenerateKeypair keyType usage slot =>
    exact transferred_listing (chip.rsaGenerateKeypair_transferred keyType usage slot)
  | rsaSign scheme slot digest =>
    exact transferred_listing (chip.rsaSign_transferred scheme slot digest)
  | rsaVerify scheme keyType key digest sig =>
    exact transferred_listing (chip.rsaVerify_transferred scheme keyType key digest sig)
  | rsaEncrypt keyType key message =>
    exact transferred_listing (chip.rsaEncrypt_transferred keyType key message)
  | rsaDecrypt slot ciphertext =>
    exact transferred_listing (chip.rsaDecrypt_transferred slot ciphertext)
  | hmac kind oid data => exact transferred_listing (chip.hmac_transferred kind oid data)
  | hkdf kind oid salt info len =>
    exact transferred_listing (chip.hkdf_transferred kind oid salt info len)
  | tlsPrf kind oid label seed len =>
    exact transferred_listing (chip.tlsPrf_transferred kind oid label seed len)
  | symmetricGenerateKey keyType usage =>
    exact transferred_listing (chip.symmetricGenerateKey_transferred keyType usage)
  | aesEcbEncrypt plain => exact transferred_listing (chip.aesEcbEncrypt_transferred plain)
  | aesEcbDecrypt cipher => exact transferred_listing (chip.aesEcbDecrypt_transferred cipher)

end Methods

/-- **Lengths across the interface are exact, or nothing is issued.** -/
theorem perform_exact (chip : Chip) (m : Method) (s : Host) :
    (((∃ what, (m.perform chip s).1 = .err (.invalidArgument what)) ∧ (m.perform chip s).2 = s) ∨
      ∃ c reply, (m.perform chip s).2.calls = s.calls ++ [(.command c, reply)] ∧
        (∀ p ∈ c.spans, p.1 = p.2.length) ∧ (m.perform chip s).1 ≠ .panic ∧
        (∀ what, (m.perform chip s).1 ≠ .err (.invalidArgument what)) ∧
        ∀ vs, (m.perform chip s).1 = .ok vs →
          List.Forall₂ (fun v buf => v.length ≤ buf.length) vs c.outputs) ∧
      CastsExact := by
  refine ⟨?_, castsExact⟩
  rcases m.perform_transferred chip with hinvalid | ⟨c, reply, heq, hc, hdelivered⟩
  · exact Or.inl hinvalid
  · exact Or.inr ⟨c, reply, by rw [heq]; rfl, hc, hdelivered.settled, hdelivered.accepted,
      hdelivered.fits⟩

end Trustm
