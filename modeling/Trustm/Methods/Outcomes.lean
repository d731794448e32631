import Trustm.Methods.Exact

/-!
# What a method answers

Every method converts its arguments, issues one command and looks at the answer. A command ends
here as `run` ends: by a refusal, with the status that `run` reads, or with its timeout. That this
status came from another command is a matter of the process model.

* `Issues`: at most one command, with the outcome of the whole computation against its answer;
  `issues_...` are the rules for the steps of the methods.
* `perform_settled`: a method rejects its arguments and leaves the host as it was, or issues one
  command to its instance; the error of the command is the error of the method, and a success is
  a result, but for the one method that parses what it got.
-/

namespace Trustm

open Outcome Effect

/-! ## Commands -/

/-- The instance a command goes to. -/
def LibCommand.which : LibCommand → Which
  | .openApplication _ | .closeApplication _ | .readData _ _ _ _ | .readMetadata _ _ _
  | .writeData _ _ _ _ _ | .writeMetadata _ _ _ | .updateCount _ _ => .util
  | .random _ _ _ | .hash _ _ _ _ | .eccGenerateKeypair _ _ _ _ _ _ | .ecdsaSign _ _ _ _ _
  | .ecdsaVerify _ _ _ _ _ _ | .ecdh _ _ _ _ | .rsaGenerateKeypair _ _ _ _ _ _
  | .rsaSign _ _ _ _ _ _ _ | .rsaVerify _ _ _ _ _ _ _ _ | .rsaEncryptMessage _ _ _ _ _ _ _ _ _
  | .rsaDecryptAndExport _ _ _ _ _ _ _ _ | .hmac _ _ _ _ _ _ | .hkdf _ _ _ _ _ _ _ _ _
  | .tlsPrf _ _ _ _ _ _ _ _ _ | .symmetricGenerateKey _ _ _ _ | .symmetricEncryptEcb _ _ _ _ _
  | .symmetricDecryptEcb _ _ _ _ _ => .crypt

/-- The command opens or closes the application. -/
def LibCommand.application : LibCommand → Bool
  | .openApplication _ | .closeApplication _ => true
  | _ => false

/-- The command makes a key, writes an object or its metadata, or moves a counter. -/
def LibCommand.writes : LibCommand → Bool
  | .writeData _ _ _ _ _ | .writeMetadata _ _ _ | .updateCount _ _
  | .eccGenerateKeypair _ _ _ _ _ _ | .rsaGenerateKeypair _ _ _ _ _ _
  | .symmetricGenerateKey _ _ _ _ => true
  | _ => false

/-- The instance a method works with. -/
def Method.which : Method → Which
  | .readData _ _ | .writeData _ _ _ _ | .readMetadata _ | .writeMetadata _ _
  | .updateCounter _ _ => .util
  | _ => .crypt

/-- The method makes a key, writes an object or its metadata, or moves a counter. -/
def Method.writes : Method → Bool
  | .writeData _ _ _ _ | .writeMetadata _ _ | .updateCounter _ _ | .eccGenerateKeypair _ _ _
  | .eccGenerateKeypairExported _ | .rsaGenerateKeypair _ _ _ | .symmetricGenerateKey _ _ =>
    true
  | _ => false

/-- The method reads a length out of the answer. -/
def Method.parses : Method → Bool
  | .eccGenerateKeypairExported _ => true
  | _ => false

/-! ## Rules -/

section

variable {α β : Type} {chip : Chip} {P : LibCommand → Prop} {parses : Bool}

/-- What is returned behind a successful command. -/
def Returns (parses : Bool) (o : Outcome Error α) : Prop :=
  (∃ a, o = .ok a) ∨ parses = true ∧ ∃ what, o = .err (.badData what)

/-- The outcome of a computation whose command got the answer `r`. -/
structure Settled (parses : Bool) (r : Reply) (o : Outcome Error α) : Prop where
  error : ∀ e, r.completion.result = .error e → o = .err e
  success : r.completion.result = .ok () → Returns parses o

/-- A computation that issues at most one command, with `P`, and tells its end. -/
def Issues (chip : Chip) (P : LibCommand → Prop) (parses : Bool) (x : Effect Host Error α) :
    Prop :=
  ∀ s, (x s).2 = s ∨
    ∃ c, P c ∧ (x s).2 = s.ran c (chip.next s) ∧ Settled parses (chip.next s) (x s).1

theorem issues_lift {x : Outcome Error β} {f : β → Effect Host Error α}
    (h : ∀ b, Issues chip P parses (f b)) : Issues chip P parses (lift x >>= f) := by
  intro s
  cases x with
  | ok b => exact h b s
  | err e => exact Or.inl rfl
  | panic => exact Or.inl rfl

theorem issues_run {c : LibCommand} {f : Reply → Effect Host Error α} (hc : P c)
    (hf : ∀ r t, ∃ o, f r t = (o, t) ∧ Returns parses o) :
    Issues chip P parses (chip.run c >>= f) := by
  intro s
  refine Or.inr ⟨c, hc, ?_⟩
  cases hresult : (chip.next s).completion.result with
  | ok u =>
    obtain ⟨o, ho, hreturns⟩ := hf (chip.next s) (s.ran c (chip.next s))
    rw [bind_of_ok (chip.run_of_ok hresult), ho]
    refine ⟨rfl, ?_, fun _ => hreturns⟩
    intro e he
    cases hresult.symm.trans he
  | error e =>
    rw [bind_of_err (chip.run_of_error hresult)]
    refine ⟨rfl, ?_, ?_⟩
    · intro e' he'
      rw [Except.error.inj (hresult.symm.trans he')]
    · intro hok
      cases hresult.symm.trans hok

/-- Nothing is called behind the command. -/
theorem state_run {c : LibCommand} {f : Reply → Effect Host Error α}
    (hf : ∀ r t, (f r t).2 = t) (s : Host) :
    ((chip.run c >>= f) s).2 = s.ran c (chip.next s) := by
  cases hresult : (chip.next s).completion.result with
  | ok u =>
    rw [bind_of_ok (chip.run_of_ok hresult)]
    exact hf _ _
  | error e => rw [bind_of_err (chip.run_of_error hresult)]

/-- A command whose answer is turned into a result. -/
theorem issues_pure {c : LibCommand} {g : Reply → α} (hc : P c) :
    Issues chip P parses (chip.run c >>= fun r => pure (g r)) :=
  issues_run hc fun r _ => ⟨.ok (g r), rfl, Or.inl ⟨g r, rfl⟩⟩

theorem state_listing (results : α → List (List UInt8)) (x : Effect Host Error α) (s : Host) :
    (listing results x s).2 = (x s).2 := by
  unfold listing
  cases hx : x s with
  | mk r t =>
    cases r with
    | ok a =>
      rw [bind_of_ok hx]
      rfl
    | err e => rw [bind_of_err hx]
    | panic => rw [bind_of_panic hx]

theorem listing_of_ok {results : α → List (List UInt8)} {x : Effect Host Error α} {s : Host}
    {a : α} (h : (x s).1 = .ok a) : (listing results x s).1 = .ok (results a) := by
  have hx : x s = (.ok a, (x s).2) := Prod.ext h rfl
  unfold listing
  rw [bind_of_ok hx]
  rfl

theorem listing_of_err {results : α → List (List UInt8)} {x : Effect Host Error α} {s : Host}
    {e : Error} (h : (x s).1 = .err e) : (listing results x s).1 = .err e := by
  have hx : x s = (.err e, (x s).2) := Prod.ext h rfl
  unfold listing
  rw [bind_of_err hx]

theorem issues_listing {results : α → List (List UInt8)} {x : Effect Host Error α}
    (h : Issues chip P parses x) : Issues chip P parses (listing results x) := by
  intro s
  rw [state_listing]
  rcases h s with hsame | ⟨c, hc, hran, hsettled⟩
  · exact Or.inl hsame
  · refine Or.inr ⟨c, hc, hran, fun e he => listing_of_err (hsettled.error e he), ?_⟩
    intro hok
    rcases hsettled.success hok with ⟨a, ha⟩ | ⟨hparses, what, hwhat⟩
    · exact Or.inl ⟨results a, listing_of_ok ha⟩
    · exact Or.inr ⟨hparses, what, listing_of_err hwhat⟩

end

/-! ## Methods -/

section

variable (chip : Chip)

/-- A command for the instance of the method, which writes if the method does. -/
def Method.Own (m : Method) (c : LibCommand) : Prop :=
  c.which = m.which ∧ c.application = false ∧ c.writes = m.writes

theorem Method.perform_issues (m : Method) :
    Issues chip m.Own m.parses (m.perform chip) := by
  cases m with
  | updateCounter | hashSha256Oid | symmetricGenerateKey =>
    exact issues_listing (issues_pure ⟨rfl, rfl, rfl⟩)
  | readData | writeData | readMetadata | writeMetadata | hashSha256 | eccGenerateKeypair
  | rsaGenerateKeypair =>
    exact issues_listing (issues_lift fun _ => issues_pure ⟨rfl, rfl, rfl⟩)
  | random rng len =>
    apply issues_listing
    unfold Chip.random
    by_cases hlen : 8 ≤ len ∧ len ≤ 256
    · rw [if_neg (not_not.mpr hlen)]
      exact issues_lift fun _ => issues_pure ⟨rfl, rfl, rfl⟩
    · rw [if_pos hlen]
      exact fun _ => Or.inl rfl
  | eccGenerateKeypairExported curve =>
    refine issues_listing (issues_lift fun priv => issues_lift fun pub =>
      issues_run ⟨rfl, rfl, rfl⟩ ?_)
    intro r t
    cases derLen (r.output 0 priv) with
    | none => exact ⟨_, rfl, Or.inr ⟨rfl, _, rfl⟩⟩
    | some n => exact ⟨_, rfl, Or.inl ⟨_, rfl⟩⟩
  | ecdsaSign | ecdsaVerifyOid | ecdh | rsaSign | rsaDecrypt | hmac | aesEcbEncrypt
  | aesEcbDecrypt =>
    exact issues_listing (issues_lift fun _ => issues_lift fun _ => issues_pure ⟨rfl, rfl, rfl⟩)
  | ecdsaVerify | rsaVerify | rsaEncrypt | hkdf | tlsPrf =>
    exact issues_listing (issues_lift fun _ => issues_lift fun _ => issues_lift fun _ =>
      issues_pure ⟨rfl, rfl, rfl⟩)

/-- **A method tells how its `run` ended.** -/
theorem perform_settled (m : Method) (s : Host) :
    (∃ what, m.perform chip s = (.err (.invalidArgument what), s)) ∨
      ∃ c, c.which = m.which ∧ c.application = false ∧ c.writes = m.writes ∧
        (m.perform chip s).2 = s.ran c (chip.next s) ∧
        Settled m.parses (chip.next s) (m.perform chip s).1 := by
  rcases m.perform_issues chip s with hsame | ⟨c, hc, hran, hsettled⟩
  · refine Or.inl ?_
    rcases m.perform_transferred chip (s := s) with ⟨⟨what, hwhat⟩, _⟩ | ⟨c, r, hran, _⟩
    · exact ⟨what, Prod.ext hwhat hsame⟩
    · -- a command would stand in the log
      have hlen := congrArg (fun t : Host => t.calls.length) (hsame.symm.trans hran)
      rw [s.length_ran c r] at hlen
      omega
  · exact Or.inr ⟨c, hc.1, hc.2.1, hc.2.2, hran, hsettled⟩

end

end Trustm
