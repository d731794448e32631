import Trustm.Methods.Exported
import Trustm.Methods.Outcomes

/-!
# Key usages

The flags of `KeyUsage`, combined with `|`, and the three methods that hand them to the chip.

* `usage_command_iff`: the chip is told which flags were combined and nothing else, neither their
  order nor how often they were named.
-/

namespace Trustm

open Outcome Effect

/-! ## Flags -/

def OPTIGA_KEY_USAGE_AUTHENTICATION : UInt32 := 1
def OPTIGA_KEY_USAGE_ENCRYPTION : UInt32 := 2
def OPTIGA_KEY_USAGE_SIGN : UInt32 := 16
def OPTIGA_KEY_USAGE_KEY_AGREEMENT : UInt32 := 32

namespace KeyUsage

def AUTHENTICATION : KeyUsage := ⟨OPTIGA_KEY_USAGE_AUTHENTICATION.toUInt8⟩
def ENCRYPTION : KeyUsage := ⟨OPTIGA_KEY_USAGE_ENCRYPTION.toUInt8⟩
def SIGN : KeyUsage := ⟨OPTIGA_KEY_USAGE_SIGN.toUInt8⟩
def KEY_AGREEMENT : KeyUsage := ⟨OPTIGA_KEY_USAGE_KEY_AGREEMENT.toUInt8⟩

def bitor (self rhs : KeyUsage) : KeyUsage := ⟨self.bits ||| rhs.bits⟩

def flags : List KeyUsage := [AUTHENTICATION, ENCRYPTION, SIGN, KEY_AGREEMENT]

/-- `first | ...`, for any number of flags behind the first. -/
def combine (first : KeyUsage) (others : List KeyUsage) : KeyUsage := others.foldl bitor first

/-- The flag `f` is set in `u`. -/
def Has (u f : KeyUsage) : Prop := u.bits &&& f.bits ≠ 0

theorem has_bitor_iff {u v f : KeyUsage} : (u.bitor v).Has f ↔ u.Has f ∨ v.Has f := by
  have hmask : (u.bits ||| v.bits) &&& f.bits = u.bits &&& f.bits ||| v.bits &&& f.bits := by
    apply UInt8.toBitVec_inj.mp
    exact BitVec.and_or_distrib_right
  unfold Has bitor
  dsimp only
  rw [hmask, Ne, UInt8.or_eq_zero_iff, not_and_or]

/-- No two flags share a bit. -/
theorem has_flag_iff {f g : KeyUsage} (hf : f ∈ flags) (hg : g ∈ flags) : g.Has f ↔ f = g := by
  have hall : ∀ f ∈ flags, ∀ g ∈ flags, g.bits &&& f.bits ≠ 0 ↔ f = g := by decide
  exact hall f hf g hg

theorem has_combine_iff {f first : KeyUsage} {others : List KeyUsage} (hf : f ∈ flags)
    (hothers : ∀ g ∈ others, g ∈ flags) :
    (combine first others).Has f ↔ first.Has f ∨ f ∈ others := by
  induction others generalizing first with
  | nil => simp [combine]
  | cons g others ih =>
    obtain ⟨hg, hothers⟩ := List.forall_mem_cons.mp hothers
    show (combine (first.bitor g) others).Has f ↔ _
    rw [ih hothers, has_bitor_iff, has_flag_iff hf hg, List.mem_cons, or_assoc]

/-- A combination has exactly its flags. -/
theorem has_combine_flags_iff {f first : KeyUsage} {others : List KeyUsage} (hf : f ∈ flags)
    (hflags : ∀ g ∈ first :: others, g ∈ flags) :
    (combine first others).Has f ↔ f ∈ first :: others := by
  obtain ⟨hfirst, hothers⟩ := List.forall_mem_cons.mp hflags
  rw [has_combine_iff hf hothers, has_flag_iff hf hfirst, List.mem_cons]

/-! ## Bits -/

/-- No other bits than those of the flags. -/
def Spanned (u : KeyUsage) : Prop := u.bits &&& 0x33 = u.bits

theorem spanned_combine {first : KeyUsage} {others : List KeyUsage}
    (hflags : ∀ g ∈ first :: others, g ∈ flags) : Spanned (combine first others) := by
  have hflag : ∀ g ∈ flags, Spanned g := by
    unfold Spanned
    decide
  obtain ⟨hfirst, hothers⟩ := List.forall_mem_cons.mp hflags
  have hspanned := hflag first hfirst
  clear hfirst hflags
  induction others generalizing first with
  | nil => exact hspanned
  | cons g others ih =>
    obtain ⟨hg, hothers⟩ := List.forall_mem_cons.mp hothers
    apply ih hothers
    have hmask : (first.bits ||| g.bits) &&& 0x33 = first.bits &&& 0x33 ||| g.bits &&& 0x33 := by
      apply UInt8.toBitVec_inj.mp
      exact BitVec.and_or_distrib_right
    unfold Spanned bitor
    dsimp only
    rw [hmask, hspanned, hflag g hg]

/-- A flag is a single bit. -/
theorem and_flag {f : KeyUsage} (hf : f ∈ flags) (u : KeyUsage) :
    u.bits &&& f.bits = if u.bits &&& f.bits ≠ 0 then f.bits else 0 := by
  have hall : ∀ i : Fin 256, ∀ f ∈ flags, UInt8.ofNat i.val &&& f.bits =
      if UInt8.ofNat i.val &&& f.bits ≠ 0 then f.bits else 0 := by
    decide +kernel
  simpa using hall ⟨u.bits.toNat, u.bits.toNat_lt⟩ f hf

theorem eq_of_bits {u v : KeyUsage} (h : u.bits = v.bits) : u = v := by
  cases u
  cases v
  exact congrArg KeyUsage.mk h

theorem eq_of_has {u v : KeyUsage} (hu : Spanned u) (hv : Spanned v)
    (h : ∀ f ∈ flags, u.Has f ↔ v.Has f) : u = v := by
  have hand (f : KeyUsage) (hf : f ∈ flags) : u.bits &&& f.bits = v.bits &&& f.bits := by
    have hiff : (u.bits &&& f.bits ≠ 0) ↔ (v.bits &&& f.bits ≠ 0) := h f hf
    rw [and_flag hf u, and_flag hf v]
    simp only [hiff]
  have hsplit (b : UInt8) :
      b &&& 0x33 = b &&& 0x01 ||| b &&& 0x02 ||| b &&& 0x10 ||| b &&& 0x20 := by
    have hmask (c d : UInt8) : b &&& (c ||| d) = b &&& c ||| b &&& d := by
      apply UInt8.toBitVec_inj.mp
      exact BitVec.and_or_distrib_left
    rw [← hmask, ← hmask, ← hmask]
    rfl
  have hbits : u.bits = v.bits := by
    rw [← hu, ← hv, hsplit, hsplit]
    have h₁ : u.bits &&& 0x01 = v.bits &&& 0x01 := hand AUTHENTICATION (by decide)
    have h₂ : u.bits &&& 0x02 = v.bits &&& 0x02 := hand ENCRYPTION (by decide)
    have h₃ : u.bits &&& 0x10 = v.bits &&& 0x10 := hand SIGN (by decide)
    have h₄ : u.bits &&& 0x20 = v.bits &&& 0x20 := hand KEY_AGREEMENT (by decide)
    rw [h₁, h₂, h₃, h₄]
  exact eq_of_bits hbits

/-- A combination is a set of flags. -/
theorem combine_eq_iff {first first' : KeyUsage} {others others' : List KeyUsage}
    (hflags : ∀ g ∈ first :: others, g ∈ flags) (hflags' : ∀ g ∈ first' :: others', g ∈ flags) :
    combine first others = combine first' others' ↔
      ∀ f, f ∈ first :: others ↔ f ∈ first' :: others' := by
  constructor
  · intro h f
    by_cases hf : f ∈ flags
    · rw [← has_combine_flags_iff hf hflags, h, has_combine_flags_iff hf hflags']
    · exact iff_of_false (fun hmem => hf (hflags f hmem)) fun hmem => hf (hflags' f hmem)
  · intro h
    apply eq_of_has (spanned_combine hflags) (spanned_combine hflags')
    intro f hf
    rw [has_combine_flags_iff hf hflags, has_combine_flags_iff hf hflags']
    exact h f

end KeyUsage

/-! ## Commands -/

/-- The methods that generate a key for a usage. -/
inductive Generates : (KeyUsage → Method) → Prop
  | ecc (curve : EccCurve) (slot : KeyId) :
      Generates fun usage => .eccGenerateKeypair curve usage slot
  | rsa (keyType : RsaKeyType) (slot : KeyId) :
      Generates fun usage => .rsaGenerateKeypair keyType usage slot
  | symmetric (keyType : SymmetricKeyType) :
      Generates fun usage => .symmetricGenerateKey keyType usage

theorem Host.ran_inj {s : Host} {c d : LibCommand} {r : Reply} (h : s.ran c r = s.ran d r) :
    c = d := by
  have hcalls : s.calls ++ [(.command c, r)] = s.calls ++ [(.command d, r)] :=
    congrArg Host.calls h
  have hlast := (List.cons.inj (List.append_cancel_left hcalls)).1
  exact LibCall.command.inj (Prod.mk.inj hlast).1

/-- The usage is one byte of the command. -/
theorem Generates.command {g : KeyUsage → Method} (hg : Generates g) (chip : Chip) (s : Host) :
    ∃ c : UInt8 → LibCommand, Function.Injective c ∧
      ∀ usage, ((g usage).perform chip s).2 = s.ran (c usage.bits) (chip.next s) := by
  cases hg with
  | ecc curve slot =>
    refine ⟨fun bits => .eccGenerateKeypair curve.raw bits 0 (.slot slot.raw)
      (List.replicate 256 0) (UInt16.ofNat (List.replicate 256 (0 : UInt8)).length), ?_, ?_⟩
    · intro a b h
      exact (LibCommand.eccGenerateKeypair.inj h).2.1
    · intro usage
      change (listing oneVec (chip.eccGenerateKeypair curve usage slot) s).2 = _
      rw [state_listing, Chip.eccGenerateKeypair, zeros_bind (by decide)]
      exact state_run (fun _ _ => rfl) s
  | rsa keyType slot =>
    refine ⟨fun bits => .rsaGenerateKeypair keyType.raw bits 0 (.slot slot.raw)
      (List.replicate 512 0) (UInt16.ofNat (List.replicate 512 (0 : UInt8)).length), ?_, ?_⟩
    · intro a b h
      exact (LibCommand.rsaGenerateKeypair.inj h).2.1
    · intro usage
      change (listing oneVec (chip.rsaGenerateKeypair keyType usage slot) s).2 = _
      rw [state_listing, Chip.rsaGenerateKeypair, zeros_bind (by decide)]
      exact state_run (fun _ _ => rfl) s
  | symmetric keyType =>
    refine ⟨fun bits => .symmetricGenerateKey keyType.raw bits 0 (.slot KeyId.secretBased.raw),
      ?_, ?_⟩
    · intro a b h
      exact (LibCommand.symmetricGenerateKey.inj h).2.1
    · intro usage
      change (listing noBytes (chip.symmetricGenerateKey keyType usage) s).2 = _
      rw [state_listing]
      exact state_run (fun _ _ => rfl) s

/-- **The chip is told exactly which flags were combined.** -/
theorem usage_command_iff (chip : Chip) (s : Host) {g : KeyUsage → Method} (hg : Generates g)
    {first first' : KeyUsage} {others others' : List KeyUsage}
    (hflags : ∀ f ∈ first :: others, f ∈ KeyUsage.flags)
    (hflags' : ∀ f ∈ first' :: others', f ∈ KeyUsage.flags) :
    ((g (first.combine others)).perform chip s).2 =
        ((g (first'.combine others')).perform chip s).2 ↔
      ∀ f, f ∈ first :: others ↔ f ∈ first' :: others' := by
  obtain ⟨c, hinj, hcommand⟩ := hg.command chip s
  rw [hcommand, hcommand, ← KeyUsage.combine_eq_iff hflags hflags']
  constructor
  · intro h
    exact KeyUsage.eq_of_bits (hinj (Host.ran_inj h))
  · intro h
    rw [h]

/-- Two flags for an ECC key, in either order and with one of them named twice. -/
theorem usage_command_iff_twice :
    ((Method.eccGenerateKeypair .nistP256 (KeyUsage.SIGN.combine [.KEY_AGREEMENT]) .E0F1).perform
          (writingChip []) .start).2 =
        ((Method.eccGenerateKeypair .nistP256
          (KeyUsage.KEY_AGREEMENT.combine [.SIGN, .KEY_AGREEMENT]) .E0F1).perform
            (writingChip []) .start).2 ↔
      ∀ f, f ∈ [KeyUsage.SIGN, .KEY_AGREEMENT] ↔
        f ∈ [KeyUsage.KEY_AGREEMENT, .SIGN, .KEY_AGREEMENT] :=
  usage_command_iff _ _ (Generates.ecc .nistP256 .E0F1) (by decide) (by decide)

end Trustm
