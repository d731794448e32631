import Mathlib.Data.List.Nodup
import Trustm.Methods.Constants

/-!
# The texts of errors

`Error::status_name` and the `Display` of `Error`, with the status words that have a name.

* `Error.statusName`: words with the top bit come from the chip and are named after their low
  byte, whatever stands between the two; every other word is named as a whole.
* `statusName_eq_iff`: a name stands for one word of the library, or for one reason of the chip.
* `display_injective`: a text tells the error completely, so nothing is lost in a log.
-/

namespace Trustm

/-! ## Names -/

/-- The reasons of the chip. -/
def deviceErrors : List (UInt32 × String) :=
  [(0x01, "chip: invalid OID"),
    (0x03, "chip: invalid parameter field"),
    (0x04, "chip: invalid length field"),
    (0x05, "chip: invalid parameter in data field"),
    (0x06, "chip: internal process error"),
    (0x07, "chip: access conditions not satisfied"),
    (0x08, "chip: data object boundary exceeded"),
    (0x09, "chip: metadata truncation error"),
    (0x0A, "chip: invalid command field"),
    (0x0B, "chip: command out of sequence"),
    (0x0C, "chip: command not available"),
    (0x0D, "chip: insufficient memory or buffer"),
    (0x0E, "chip: counter threshold limit exceeded"),
    (0x0F, "chip: invalid manifest"),
    (0x10, "chip: wrong payload version"),
    (0x21, "chip: unsorted input data")]

/-- The status words of the host library, by their values in the bindings. -/
def hostErrors : List (UInt32 × String) :=
  [(258, "comms error"),
    (259, "comms: invalid input"),
    (260, "comms: insufficient memory"),
    (261, "comms: stack memory"),
    (262, "comms: fatal"),
    (263, "comms: handshake"),
    (264, "comms: session"),
    (514, "cmd error"),
    (515, "cmd: invalid input"),
    (516, "cmd: insufficient memory"),
    (770, "util error"),
    (771, "util: invalid input"),
    (772, "util: insufficient memory"),
    (773, "util: instance in use"),
    (1026, "crypt error"),
    (1027, "crypt: invalid input"),
    (1028, "crypt: insufficient memory"),
    (1029, "crypt: instance in use")]

/-- Human-readable name for a status code, when known. -/
def Error.statusName (code : UInt16) : Option String :=
  let c := code.toUInt32
  if c &&& OPTIGA_DEVICE_ERROR ≠ 0 then deviceErrors.lookup (c &&& 0xFF) else hostErrors.lookup c

/-- A word of the chip. -/
def FromDevice (code : UInt16) : Prop := code.toUInt32 &&& OPTIGA_DEVICE_ERROR ≠ 0

/-- The reason byte. -/
def reason (code : UInt16) : UInt32 := code.toUInt32 &&& 0xFF

section Names

variable {code c d : UInt16} {table : List (UInt32 × String)} {j k : UInt32} {name : String}

theorem statusName_device (h : FromDevice code) :
    Error.statusName code = deviceErrors.lookup (reason code) := if_pos h

theorem statusName_host (h : ¬ FromDevice code) :
    Error.statusName code = hostErrors.lookup code.toUInt32 := if_neg h

theorem mem_of_lookup (h : table.lookup k = some name) : (k, name) ∈ table := by
  obtain ⟨front, back, rfl, _⟩ := List.lookup_eq_some_iff.mp h
  exact List.mem_append_right _ List.mem_cons_self

/-- In a table without a repeated name, a name has one key. -/
theorem eq_of_lookup (hnodup : (table.map Prod.snd).Nodup) (hj : table.lookup j = some name)
    (hk : table.lookup k = some name) : j = k :=
  congrArg Prod.fst (List.inj_on_of_nodup_map hnodup (mem_of_lookup hj) (mem_of_lookup hk) rfl)

theorem deviceErrors_nodup : (deviceErrors.map Prod.snd).Nodup := by decide

theorem hostErrors_nodup : (hostErrors.map Prod.snd).Nodup := by decide

/-- The chip and the library share no name. -/
theorem names_disjoint (hj : deviceErrors.lookup j = some name)
    (hk : hostErrors.lookup k = some name) : False := by
  have hne : ∀ p ∈ deviceErrors, ∀ q ∈ hostErrors, p.2 ≠ q.2 := by decide
  exact hne _ (mem_of_lookup hj) _ (mem_of_lookup hk) rfl

/-- **A name stands for one word of the library or for one reason of the chip.** -/
theorem statusName_eq_iff (hc : Error.statusName c = some name) :
    Error.statusName d = some name ↔
      c = d ∨ FromDevice c ∧ FromDevice d ∧ reason c = reason d := by
  constructor
  · intro hd
    by_cases hcdev : FromDevice c
    · rw [statusName_device hcdev] at hc
      by_cases hddev : FromDevice d
      · rw [statusName_device hddev] at hd
        exact Or.inr ⟨hcdev, hddev, eq_of_lookup deviceErrors_nodup hc hd⟩
      · rw [statusName_host hddev] at hd
        exact (names_disjoint hc hd).elim
    · rw [statusName_host hcdev] at hc
      by_cases hddev : FromDevice d
      · rw [statusName_device hddev] at hd
        exact (names_disjoint hd hc).elim
      · rw [statusName_host hddev] at hd
        have hwords := eq_of_lookup hostErrors_nodup hc hd
        exact Or.inl (UInt16.toUInt32_inj.mp hwords)
  · intro h
    rcases h with rfl | ⟨hcdev, hddev, hreason⟩
    · exact hc
    · rw [statusName_device hddev, ← hreason, ← statusName_device hcdev]
      exact hc

/-- `0x8007` and `0x8107` have the same reason. -/
theorem statusName_eq_iff_conditions :
    Error.statusName 0x8107 = some "chip: access conditions not satisfied" ↔
      (0x8007 : UInt16) = 0x8107 ∨
        FromDevice 0x8007 ∧ FromDevice 0x8107 ∧ reason 0x8007 = reason 0x8107 :=
  statusName_eq_iff (by decide)

end Names

/-! ## Texts -/

/-- A digit of `{:X}`. -/
def upperDigit (n : Nat) : Char := (Nat.digitChar n).toUpper

/-- `{code:04X}` -/
def upperHex (code : UInt16) : List Char :=
  [upperDigit (code.toNat / 4096), upperDigit (code.toNat / 256 % 16),
    upperDigit (code.toNat / 16 % 16), upperDigit (code.toNat % 16)]

theorem upperDigit_inj {m n : Nat} (hm : m < 16) (hn : n < 16)
    (h : upperDigit m = upperDigit n) : m = n := by
  have hall : ∀ i < 16, ∀ j < 16, upperDigit i = upperDigit j → i = j := by decide
  exact hall m hm n hn h

theorem upperHex_inj {c d : UInt16} (h : upperHex c = upperHex d) : c = d := by
  have hc := c.toNat_lt
  have hd := d.toNat_lt
  simp only [upperHex, List.cons.injEq, and_true] at h
  obtain ⟨h₁, h₂, h₃, h₄⟩ := h
  have e₁ := upperDigit_inj (by omega) (by omega) h₁
  have e₂ := upperDigit_inj (by omega) (by omega) h₂
  have e₃ := upperDigit_inj (by omega) (by omega) h₃
  have e₄ := upperDigit_inj (by omega) (by omega) h₄
  apply UInt16.toNat_inj.mp
  omega

/-- What stands behind the digits. -/
def named : Option String → String
  | some name => " (" ++ name ++ ")"
  | none => ""

/-- `Display` -/
def Error.display : Error → String
  | .status code =>
    "OPTIGA error 0x" ++ String.ofList (upperHex code) ++ named (Error.statusName code)
  | .timeout => "timed out waiting for the chip"
  | .noInstance => "could not create a host library instance"
  | .alreadyOpen => "a Trustm handle is already open in this process"
  | .invalidArgument what => "invalid argument: " ++ what
  | .badData what => "unexpected data from the chip: " ++ what

theorem toList_digits (front : String) (digits : List Char) (back : String) :
    (front ++ String.ofList digits ++ back).toList = front.toList ++ (digits ++ back.toList) := by
  rw [String.toList_append, String.toList_append, String.toList_ofList, List.append_assoc]

/-- The digits of a status word stand behind the same text, with or without a name. -/
theorem display_status (code : UInt16) : ∃ rest, (Error.status code).display.toList =
    "OPTIGA error 0x".toList ++ (upperHex code ++ rest) :=
  ⟨_, toList_digits _ _ _⟩

theorem display_invalidArgument (what : String) : (Error.invalidArgument what).display.toList =
    "invalid argument: ".toList ++ what.toList := String.toList_append

theorem display_badData (what : String) : (Error.badData what).display.toList =
    "unexpected data from the chip: ".toList ++ what.toList := String.toList_append

/-- The first letter tells the kind. -/
def Error.initial : Error → Char
  | .status _ => 'O'
  | .timeout => 't'
  | .noInstance => 'c'
  | .alreadyOpen => 'a'
  | .invalidArgument _ => 'i'
  | .badData _ => 'u'

theorem display_head (e : Error) : e.display.toList.head? = some e.initial := by
  cases e with
  | status code =>
    obtain ⟨rest, hrest⟩ := display_status code
    rw [hrest]
    rfl
  | timeout => rfl
  | noInstance => rfl
  | alreadyOpen => rfl
  | invalidArgument what =>
    rw [display_invalidArgument]
    rfl
  | badData what =>
    rw [display_badData]
    rfl

theorem eq_of_display_eq {e e' : Error} (h : e.display = e'.display) : e = e' := by
  have hinitial : e.initial = e'.initial := by
    have hhead := display_head e
    rw [h, display_head e'] at hhead
    exact (Option.some.inj hhead).symm
  cases e with
  | status c =>
    cases e' with
    | status d =>
      obtain ⟨rest, hc⟩ := display_status c
      obtain ⟨rest', hd⟩ := display_status d
      rw [h, hd] at hc
      have hdigits := (List.append_inj (List.append_cancel_left hc) rfl).1
      rw [upperHex_inj hdigits]
    | _ => simp [Error.initial] at hinitial
  | timeout =>
    cases e' with
    | timeout => rfl
    | _ => simp [Error.initial] at hinitial
  | noInstance =>
    cases e' with
    | noInstance => rfl
    | _ => simp [Error.initial] at hinitial
  | alreadyOpen =>
    cases e' with
    | alreadyOpen => rfl
    | _ => simp [Error.initial] at hinitial
  | invalidArgument what =>
    cases e' with
    | invalidArgument what' =>
      have htext := congrArg String.toList h
      rw [display_invalidArgument, display_invalidArgument] at htext
      rw [String.toList_inj.mp (List.append_cancel_left htext)]
    | _ => simp [Error.initial] at hinitial
  | badData what =>
    cases e' with
    | badData what' =>
      have htext := congrArg String.toList h
      rw [display_badData, display_badData] at htext
      rw [String.toList_inj.mp (List.append_cancel_left htext)]
    | _ => simp [Error.initial] at hinitial

/-- **The text of an error tells the error completely.** -/
theorem display_injective : Function.Injective Error.display :=
  fun _ _ h => eq_of_display_eq h

end Trustm
