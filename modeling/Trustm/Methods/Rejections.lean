import Trustm.Methods.Outcomes

/-!
# Which arguments a method rejects

Before its command a method checks what it was given, one argument after the other. Each check
is a bound with the text of its error, and this is a table of all of them.

* `Method.guards`: the checks of a method, in the order in which it makes them.
* `Guarded`: a computation that makes these checks and then issues its command; `guarded_...` are
  the rules for the steps of the methods.
* `perform_rejected_iff`: a method names the first check that fails, and issues its command if
  none does.
-/

namespace Trustm

open Outcome Effect

/-! ## Checks -/

/-- The first check that fails. -/
def rejection : List (Bool × String) → Option String
  | [] => none
  | (true, _) :: guards => rejection guards
  | (false, what) :: _ => some what

theorem rejection_eq_none_iff {guards : List (Bool × String)} :
    rejection guards = none ↔ ∀ g ∈ guards, g.1 = true := by
  induction guards with
  | nil => exact iff_of_true rfl fun g hg => (List.not_mem_nil hg).elim
  | cons g guards ih =>
    obtain ⟨fits, what⟩ := g
    rw [List.forall_mem_cons, ← ih]
    cases fits with
    | true => exact (and_iff_right rfl).symm
    | false => exact iff_of_false (fun h => by cases h) fun h => by cases h.1

/-- A length has to fit its C type. -/
def fitsU8 (bytes : List UInt8) : Bool := bytes.length < UInt8.size

def fitsU16 (bytes : List UInt8) : Bool := bytes.length < UInt16.size

def fitsU32 (bytes : List UInt8) : Bool := bytes.length < UInt32.size

def Method.guards : Method → List (Bool × String)
  | .writeData _ _ _ data => [(fitsU16 data, "data too long")]
  | .writeMetadata _ metadata => [(fitsU8 metadata, "metadata too long")]
  | .random _ len => [(8 ≤ len ∧ len ≤ 256, "random length must be 8..=256")]
  | .hashSha256 data => [(fitsU32 data, "data too long")]
  | .ecdsaSign _ digest => [(fitsU8 digest, "digest too long")]
  | .ecdsaVerify _ publicKey digest signature =>
    [(fitsU8 digest, "digest too long"), (fitsU16 signature, "signature too long"),
      (fitsU16 publicKey, "public key too long")]
  | .ecdsaVerifyOid _ digest signature =>
    [(fitsU8 digest, "digest too long"), (fitsU16 signature, "signature too long")]
  | .ecdh _ _ peerPublicKey => [(fitsU16 peerPublicKey, "public key too long")]
  | .rsaSign _ _ digest => [(fitsU8 digest, "digest too long")]
  | .rsaVerify _ _ publicKey digest signature =>
    [(fitsU8 digest, "digest too long"), (fitsU16 signature, "signature too long"),
      (fitsU16 publicKey, "public key too long")]
  | .rsaEncrypt _ publicKey message =>
    [(fitsU16 message, "message too long"), (fitsU16 publicKey, "public key too long")]
  | .rsaDecrypt _ ciphertext => [(fitsU16 ciphertext, "ciphertext too long")]
  | .hmac _ _ data => [(fitsU32 data, "data too long")]
  | .hkdf _ _ salt info _ => [(fitsU16 salt, "salt too long"), (fitsU16 info, "info too long")]
  | .tlsPrf _ _ label seed _ =>
    [(fitsU16 label, "label too long"), (fitsU16 seed, "seed too long")]
  | .aesEcbEncrypt plain => [(fitsU32 plain, "data too long")]
  | .aesEcbDecrypt cipher => [(fitsU32 cipher, "data too long")]
  | .readData _ _ | .readMetadata _ | .updateCounter _ _ | .hashSha256Oid _ _ _
  | .eccGenerateKeypair _ _ _ | .eccGenerateKeypairExported _ | .rsaGenerateKeypair _ _ _
  | .symmetricGenerateKey _ _ => []

/-! ## Rules -/

section

variable {α β : Type} {chip : Chip} {guards : List (Bool × String)} {fits : Bool} {what : String}

/-- A rejected computation leaves the host alone, and any other issues a command. -/
def Guarded (chip : Chip) (guards : List (Bool × String)) (x : Effect Host Error α) : Prop :=
  match rejection guards with
  | some what => ∀ s, x s = (.err (.invalidArgument what), s)
  | none => ∀ s, ∃ c, (x s).2 = s.ran c (chip.next s)

theorem guarded_cons {x : Effect Host Error α} (h : fits = true → Guarded chip guards x)
    (hreject : fits = false → ∀ s, x s = (.err (.invalidArgument what), s)) :
    Guarded chip ((fits, what) :: guards) x := by
  cases fits with
  | true => exact h rfl
  | false => exact hreject rfl

/-- A checked conversion. -/
theorem guarded_tryFrom {γ : Type} {size n : Nat} {ofNat : Nat → γ}
    {f : γ → Effect Host Error α} (h : n < size → Guarded chip guards (f (ofNat n))) :
    Guarded chip ((decide (n < size), what) :: guards) (tryFrom size ofNat n what >>= f) := by
  apply guarded_cons
  · intro hfits
    have hn := of_decide_eq_true hfits
    rw [tryFrom_bind hn]
    exact h hn
  · intro hfits s
    rw [tryFrom, if_neg (of_decide_eq_false hfits)]
    rfl

/-- An allocation that cannot fail. -/
theorem guarded_zeros {n : Nat} (hn : n < 2 ^ 32) {f : List UInt8 → Effect Host Error α}
    (h : Guarded chip guards (f (List.replicate n 0))) :
    Guarded chip guards (zeros n >>= f) := by
  rw [zeros_bind hn]
  exact h

theorem guarded_run {c : LibCommand} {f : Reply → Effect Host Error α}
    (hf : ∀ r t, (f r t).2 = t) : Guarded chip [] (chip.run c >>= f) :=
  fun s => ⟨c, state_run hf s⟩

theorem guarded_listing {results : α → List (List UInt8)} {x : Effect Host Error α}
    (h : Guarded chip guards x) : Guarded chip guards (listing results x) := by
  unfold Guarded at h ⊢
  cases hreject : rejection guards with
  | some what =>
    rw [hreject] at h
    exact fun s => bind_of_err (h s)
  | none =>
    rw [hreject] at h
    intro s
    obtain ⟨c, hran⟩ := h s
    exact ⟨c, (state_listing results x s).trans hran⟩

end

/-! ## Methods -/

section

variable (chip : Chip)

theorem Method.perform_guarded (m : Method) : Guarded chip m.guards (m.perform chip) := by
  cases m with
  | updateCounter | hashSha256Oid | symmetricGenerateKey =>
    exact guarded_listing (guarded_run fun _ _ => rfl)
  | readData | readMetadata | eccGenerateKeypair | rsaGenerateKeypair =>
    exact guarded_listing (guarded_zeros (by decide) (guarded_run fun _ _ => rfl))
  | writeData | writeMetadata | hashSha256 =>
    exact guarded_listing (guarded_tryFrom fun _ => guarded_run fun _ _ => rfl)
  | random rng len =>
    apply guarded_listing
    unfold Chip.random
    apply guarded_cons
    · intro hfits
      rw [if_neg (not_not.mpr (of_decide_eq_true hfits))]
      exact guarded_zeros (len.toNat_lt.trans (by decide)) (guarded_run fun _ _ => rfl)
    · intro hfits s
      rw [if_pos (of_decide_eq_false hfits)]
      rfl
  | eccGenerateKeypairExported curve =>
    refine guarded_listing (guarded_zeros (by decide) (guarded_zeros (by decide) (guarded_run ?_)))
    intro r t
    cases derLen (r.output 0 (List.replicate 256 0)) with
    | none => rfl
    | some n => rfl
  | ecdsaSign | rsaSign | rsaDecrypt =>
    exact guarded_listing (guarded_tryFrom fun _ => guarded_zeros (by decide)
      (guarded_run fun _ _ => rfl))
  | ecdsaVerifyOid =>
    exact guarded_listing (guarded_tryFrom fun _ => guarded_tryFrom fun _ =>
      guarded_run fun _ _ => rfl)
  | ecdsaVerify | rsaVerify =>
    exact guarded_listing (guarded_tryFrom fun _ => guarded_tryFrom fun _ =>
      guarded_tryFrom fun _ => guarded_run fun _ _ => rfl)
  | ecdh slot curve =>
    exact guarded_listing (guarded_tryFrom fun _ => guarded_zeros (by cases curve <;> decide)
      (guarded_run fun _ _ => rfl))
  | rsaEncrypt keyType =>
    exact guarded_listing (guarded_tryFrom fun _ => guarded_tryFrom fun _ =>
      guarded_zeros (by cases keyType <;> decide) (guarded_run fun _ _ => rfl))
  | hmac kind =>
    exact guarded_listing (guarded_tryFrom fun _ => guarded_zeros (by cases kind <;> decide)
      (guarded_run fun _ _ => rfl))
  | hkdf _ _ _ _ len | tlsPrf _ _ _ _ len =>
    exact guarded_listing (guarded_tryFrom fun _ => guarded_tryFrom fun _ =>
      guarded_zeros (len.toNat_lt.trans (by decide)) (guarded_run fun _ _ => rfl))
  | aesEcbEncrypt | aesEcbDecrypt =>
    exact guarded_listing (guarded_tryFrom fun hn => guarded_zeros hn (guarded_run fun _ _ => rfl))

/-- **A method rejects exactly the arguments that break a bound of its table**, and names the
first of them. On all other arguments it issues one command. -/
theorem perform_rejected_iff (m : Method) (s : Host) :
    (∀ what, m.perform chip s = (.err (.invalidArgument what), s) ↔
        rejection m.guards = some what) ∧
      ((∃ c, (m.perform chip s).2 = s.ran c (chip.next s)) ↔ ∀ g ∈ m.guards, g.1 = true) := by
  have hguarded := m.perform_guarded chip
  -- a command would stand in the log
  have hran (c : LibCommand) : s ≠ s.ran c (chip.next s) := by
    intro h
    have hlen := congrArg (fun t : Host => t.calls.length) h
    rw [s.length_ran c (chip.next s)] at hlen
    omega
  rw [← rejection_eq_none_iff]
  unfold Guarded at hguarded
  cases hreject : rejection m.guards with
  | some text =>
    rw [hreject] at hguarded
    rw [hguarded s]
    refine ⟨fun what => ?_, iff_of_false ?_ (Option.some_ne_none text)⟩
    · rw [Prod.mk.injEq, Outcome.err.injEq, Error.invalidArgument.injEq, Option.some.injEq,
        and_iff_left rfl]
    · intro h
      obtain ⟨c, hc⟩ := h
      exact hran c hc
  | none =>
    rw [hreject] at hguarded
    obtain ⟨c, hc⟩ := hguarded s
    refine ⟨fun what => iff_of_false ?_ (Option.some_ne_none what).symm, iff_of_true ⟨c, hc⟩ rfl⟩
    intro h
    rw [h] at hc
    exact hran c hc

end

end Trustm
