import Trustm.Check.Texts
import Trustm.Methods.Exported

/-!
# What the output shows

The checks that only show a data object or its metadata, against the answers they got: ten
commands in a row, and ten lines behind the first one.

* `View`: a text for the bytes of an object. It tells them completely, or says that they cannot
  be what was asked for.
* `Inspection`: a check with a view; `Inspection.Shows` is its line for an answer.
* `main_shows`: in every run that opens, each of the ten lines is that of the answer to its own
  command.
* `main_faithful`: two runs with the same output have seen the same objects.
-/

namespace Trustm

open Outcome Effect

/-! ## Texts -/

theorem digitChar_inj {i j : Nat} (hi : i < 16) (hj : j < 16)
    (h : Nat.digitChar i = Nat.digitChar j) : i = j := by
  have hall : ∀ i < 16, ∀ j < 16, Nat.digitChar i = Nat.digitChar j → i = j := by decide
  exact hall i hi j hj h

theorem digitChar_ne_space {i : Nat} (hi : i < 16) : Nat.digitChar i ≠ ' ' := by
  have hall : ∀ i < 16, Nat.digitChar i ≠ ' ' := by decide
  exact hall i hi

/-- The digits end at the first space. -/
theorem hex_append_inj {b c : List UInt8} {s t : List Char}
    (h : (hex b).toList ++ ' ' :: s = (hex c).toList ++ ' ' :: t) : b = c := by
  have hdigit (x : UInt8) : x.toNat / 16 < 16 := by
    have hx := x.toNat_lt
    omega
  induction b generalizing c with
  | nil =>
    cases c with
    | nil => rfl
    | cons y c =>
      rw [toList_hex_cons] at h
      exact absurd (List.cons.inj h).1.symm (digitChar_ne_space (hdigit y))
  | cons x b ih =>
    cases c with
    | nil =>
      rw [toList_hex_cons] at h
      exact absurd (List.cons.inj h).1 (digitChar_ne_space (hdigit x))
    | cons y c =>
      rw [toList_hex_cons, toList_hex_cons] at h
      obtain ⟨hhigh, h⟩ := List.cons.inj h
      obtain ⟨hlow, h⟩ := List.cons.inj h
      have hhigh := digitChar_inj (hdigit x) (hdigit y) hhigh
      have hlow := digitChar_inj (Nat.mod_lt _ (by decide)) (Nat.mod_lt _ (by decide)) hlow
      have hxy : x = y := UInt8.toNat_inj.mp (by omega)
      rw [hxy, ih h]

theorem hex_inj {b c : List UInt8} (h : hex b = hex c) : b = c := by
  have hspace : (hex b).toList ++ ' ' :: [] = (hex c).toList ++ ' ' :: [] := by rw [h]
  exact hex_append_inj hspace

theorem lifecycle_inj {b c : List UInt8} {s t : String}
    (h : hex b ++ " (" ++ s ++ ")" = hex c ++ " (" ++ t ++ ")") : b = c := by
  have hsplit (b : List UInt8) (s : String) :
      (hex b ++ " (" ++ s ++ ")").toList = (hex b).toList ++ ' ' :: ('(' :: s.toList ++ [')']) := by
    rw [String.toList_append, String.toList_append, String.toList_append, List.append_assoc,
      List.append_assoc]
    rfl
  have htext := congrArg String.toList h
  rw [hsplit, hsplit] at htext
  exact hex_append_inj htext

theorem toString_inj {m n : Nat} (h : toString m = toString n) : m = n := by
  have hdigits : Nat.toDigits 10 m = Nat.toDigits 10 n := String.ofList_injective h
  rw [← Nat.ofDigitChars_ten_toDigits (n := m), hdigits, Nat.ofDigitChars_ten_toDigits]

/-! ## Views -/

/-- A text for some bytes, or the reason why they are none of the kind. -/
structure View where
  text : List UInt8 → Outcome Error String
  decided : ∀ v, (∃ info, text v = .ok info) ∨ ∃ what, text v = .err (.badData what)
  faithful : ∀ {v w info}, text v = .ok info → text w = .ok info → v = w

def hexadecimal : View where
  text := hexView
  decided v := Or.inl ⟨hex v, rfl⟩
  faithful := by
    intro v w info hv hw
    exact hex_inj (Outcome.ok.inj (hv.trans hw.symm))

def lifecycle : View where
  text := lifecycleView
  decided v := Or.inl ⟨_, rfl⟩
  faithful := by
    intro v w info hv hw
    exact lifecycle_inj (Outcome.ok.inj (hv.trans hw.symm))

theorem expect_bind_decided {c : Prop} [Decidable c] {msg : String} {x : Outcome Error String}
    (h : c → ∃ info, x = .ok info) :
    (∃ info, (expect c msg >>= fun _ => x) = .ok info) ∨
      ∃ what, (expect c msg >>= fun _ => x) = .err (.badData what) := by
  unfold expect
  split
  · rename_i hc
    exact Or.inl (h hc)
  · exact Or.inr ⟨msg, rfl⟩

def uid : View where
  text := uidView
  decided v := expect_bind_decided fun _ => ⟨hex v, rfl⟩
  faithful := by
    intro v w info hv hw
    have hv := (expect_bind_eq_ok_iff.mp hv).2
    have hw := (expect_bind_eq_ok_iff.mp hw).2
    exact hex_inj (Outcome.ok.inj (hv.trans hw.symm))

/-- The two bytes of an accepted size, and its text. -/
theorem commBufferView_of_ok {v : List UInt8} {info : String} (h : commBufferView v = .ok info) :
    ∃ high low : UInt8, v = [high, low] ∧
      info = toString (high.toNat * 256 + low.toNat) ++ " bytes" := by
  have hlen := (expect_bind_eq_ok_iff.mp h).1
  obtain ⟨high, low, rfl⟩ := List.length_eq_two.mp hlen
  exact ⟨high, low, rfl, (Outcome.ok.inj h).symm⟩

def commBuffer : View where
  text := commBufferView
  decided v := by
    apply expect_bind_decided
    intro hlen
    obtain ⟨high, low, rfl⟩ := List.length_eq_two.mp hlen
    exact ⟨_, rfl⟩
  faithful := by
    intro v w info hv hw
    obtain ⟨high, low, rfl, hinfo⟩ := commBufferView_of_ok hv
    obtain ⟨high', low', rfl, hinfo'⟩ := commBufferView_of_ok hw
    have htext := congrArg String.toList (hinfo.symm.trans hinfo')
    rw [String.toList_append, String.toList_append] at htext
    have hsize := toString_inj (String.toList_inj.mp (List.append_cancel_right htext))
    have hlow := low.toNat_lt
    have hlow' := low'.toNat_lt
    have hhigh : high = high' := UInt8.toNat_inj.mp (by omega)
    have hlow : low = low' := UInt8.toNat_inj.mp (by omega)
    rw [hhigh, hlow]

/-! ## Inspections -/

structure Inspection where
  name : String
  bytes : Reply → List UInt8
  view : View

def stateInspections : List Inspection :=
  [⟨"read coprocessor UID (0xE0C2)", readBytes, uid⟩,
    ⟨"read lifecycle state (0xE0C0)", readBytes, lifecycle⟩,
    ⟨"read security status (0xE0C1)", readBytes, hexadecimal⟩,
    ⟨"read security event counter (0xE0C5)", readBytes, hexadecimal⟩,
    ⟨"read max comm buffer size (0xE0C6)", readBytes, commBuffer⟩,
    ⟨"read monotonic counter (0xE120)", readBytes, hexadecimal⟩]

def metadataInspection (o : UInt16 × String) : Inspection :=
  ⟨"read metadata of " ++ o.2, metadataBytes, hexadecimal⟩

def inspections : List Inspection := stateInspections ++ metadataObjects.map metadataInspection

namespace Inspection

/-- The line for an answer. -/
inductive Shows (o : Inspection) (r : Reply) : Line → Prop
  | failed {e : Error} (h : r.completion.result = .error e) : Shows o r (.fail o.name e)
  | accepted {info : String} (h : r.Succeeds) (hview : o.view.text (o.bytes r) = .ok info) :
      Shows o r (.ok o.name info)
  | rejected {what : String} (h : r.Succeeds)
      (hview : o.view.text (o.bytes r) = .err (.badData what)) :
      Shows o r (.fail o.name (.badData what))

def Takes (o : Inspection) (r : Reply) : Prop := ∃ info, o.view.text (o.bytes r) = .ok info

/-- Two answers that end the command in one way, and hold the same bytes if these are taken. -/
structure Agree (o : Inspection) (r r' : Reply) : Prop where
  ended : r.completion.result = r'.completion.result
  bytes : r.Succeeds → o.Takes r ∨ o.Takes r' → o.bytes r = o.bytes r'

/-- A line tells the answer apart from all that do not agree with it. -/
theorem Shows.agree {o : Inspection} {r r' : Reply} {l : Line} (h : o.Shows r l)
    (h' : o.Shows r' l) : o.Agree r r' := by
  cases h with
  | failed he =>
    refine ⟨?_, fun hok => absurd (he.symm.trans hok) (by simp)⟩
    cases h' with
    | failed he' => exact he.trans he'.symm
    | rejected hok' hview' =>
      rcases Completion.error_cases he with ⟨code, hcode⟩ | htimeout
      · cases hcode
      · cases htimeout
  | accepted hok hview =>
    cases h' with
    | accepted hok' hview' =>
      exact ⟨hok.trans hok'.symm, fun _ _ => o.view.faithful hview hview'⟩
  | @rejected what hok hview =>
    generalize hl : Line.fail o.name (Error.badData what) = l at h'
    cases h' with
    | failed he' =>
      cases hl
      rcases Completion.error_cases he' with ⟨code, hcode⟩ | htimeout
      · cases hcode
      · cases htimeout
    | accepted => cases hl
    | rejected hok' hview' =>
      refine ⟨hok.trans hok'.symm, ?_⟩
      intro _ htakes
      rcases htakes with ⟨info, hinfo⟩ | ⟨info, hinfo⟩
      · cases hview.symm.trans hinfo
      · cases hview'.symm.trans hinfo

end Inspection

/-- The lines of some inspections for the answers from number `n` on. -/
inductive Shown (chip : Chip) : Nat → List Inspection → List Line → Prop
  | nil (n : Nat) : Shown chip n [] []
  | cons {n : Nat} {o : Inspection} {l : Line} {os : List Inspection} {ls : List Line}
      (h : o.Shows (chip.reply n) l) (hrest : Shown chip (n + 1) os ls) :
      Shown chip n (o :: os) (l :: ls)

theorem Shown.length_eq {chip : Chip} {n : Nat} {os : List Inspection} {ls : List Line}
    (h : Shown chip n os ls) : ls.length = os.length := by
  induction h with
  | nil => rfl
  | cons _ _ ih => rw [List.length_cons, List.length_cons, ih]

theorem Shown.agree {chip chip' : Chip} {n : Nat} {os : List Inspection} {ls : List Line}
    (h : Shown chip n os ls) (h' : Shown chip' n os ls) :
    ∀ (i : Nat) (o : Inspection), os[i]? = some o →
      o.Agree (chip.reply (n + i)) (chip'.reply (n + i)) := by
  induction h with
  | nil => exact fun i o ho => by cases ho
  | @cons n o l os ls hfirst _ ih =>
    cases h' with
    | cons hfirst' hrest' =>
      intro i p hp
      cases i with
      | zero =>
        cases hp
        exact hfirst.agree hfirst'
      | succ i =>
        rw [← Nat.succ_add_eq_add_succ]
        exact ih hrest' i p hp

/-! ## Runs -/

/-- The lines of the rest come behind those of the inspections, and these behind all others. -/
def Reaches (chip : Chip) (rest : Script) (os : List Inspection) : Prop :=
  ∀ m, rest.Ensures m fun _ t =>
    ∃ ls, Shown chip m.host.calls.length os ls ∧ m.lines ++ ls <+: t.lines

section Reaches

variable {chip : Chip} {rest : Script} {os : List Inspection}
  {f : Effect CheckState Error String}

theorem reaches_nil {P : Line → Prop} (h : Adds P rest) : Reaches chip rest [] := by
  intro m
  refine ⟨[], .nil _, ?_⟩
  rw [List.append_nil]
  exact Performs.keeps h (fun _ l _ hl => hl.trans (List.prefix_append _ [l])) (List.prefix_refl _)

/-- A command, and the text of its answer. -/
theorem Reaches.inspect {x : Effect Host Error (List UInt8)} {c : LibCommand} {o : Inspection}
    (hx : Asks chip x c o.bytes) (hrest : Reaches chip rest os) :
    Reaches chip
      (Report.check o.name (device x >>= fun v => lift (o.view.text v)) >>= fun _ => rest)
      (o :: os) := by
  intro m
  have hlen := m.host.length_ran c (chip.next m.host)
  have hstep {l : Line} {n : CheckState} (hl : o.Shows (chip.next m.host) l)
      (hlines : n.lines = m.lines ++ [l])
      (hhost : n.host = m.host.ran c (chip.next m.host)) :
      rest.Ensures n fun _ t =>
        ∃ ls, Shown chip m.host.calls.length (o :: os) ls ∧ m.lines ++ ls <+: t.lines := by
    refine (hrest n).mono fun _ t h => ?_
    obtain ⟨ls, hshown, hprefix⟩ := h
    rw [hhost, hlen] at hshown
    rw [hlines, List.append_assoc] at hprefix
    exact ⟨l :: ls, .cons hl hshown, hprefix⟩
  cases hresult : (chip.next m.host).completion.result with
  | error e =>
    apply Ensures.of_ok (check_of_err (bind_of_err (device_of_err (hx.error m.host e hresult))))
    exact hstep (.failed hresult) rfl rfl
  | ok u =>
    have hdevice := device_of_ok (m := m) (hx.ok m.host hresult)
    rcases o.view.decided (o.bytes (chip.next m.host)) with ⟨info, hinfo⟩ | ⟨what, hwhat⟩
    · apply Ensures.of_ok (check_of_ok ((bind_of_ok hdevice).trans (by rw [hinfo]; rfl)))
      exact hstep (.accepted hresult hinfo) rfl rfl
    · apply Ensures.of_ok (check_of_err ((bind_of_ok hdevice).trans (by rw [hwhat]; rfl)))
      exact hstep (.rejected hresult hwhat) rfl rfl

theorem Reaches.forM {α : Type} {x : α → Effect Host Error (List UInt8)} {c : α → LibCommand}
    {g : α → Inspection} {as : List α} (hx : ∀ a, Asks chip (x a) (c a) (g a).bytes)
    (hrest : Reaches chip rest os) :
    Reaches chip (as.forM (fun a => Report.check (g a).name
      (device (x a) >>= fun v => lift ((g a).view.text v))) >>= fun _ => rest)
      (as.map g ++ os) := by
  induction as with
  | nil => exact hrest
  | cons a as ih =>
    rw [Effect.forM_cons_bind]
    exact Reaches.inspect (hx a) ih

end Reaches

theorem checks_reach (chip : Chip) : Reaches chip (checks chip) inspections := by
  refine Reaches.inspect (readData_asks 0xE0C2) ?_
  refine Reaches.inspect (readData_asks 0xE0C0) ?_
  refine Reaches.inspect (readData_asks 0xE0C1) ?_
  refine Reaches.inspect (readData_asks 0xE0C5) ?_
  refine Reaches.inspect (readData_asks 0xE0C6) ?_
  refine Reaches.inspect (readData_asks 0xE120) ?_
  exact Reaches.forM (g := metadataInspection) (fun o => readMetadata_asks o.1)
    (reaches_nil tailChecks_adds)

/-- Behind the line of `open` come those of the inspections, whose answers follow its four. -/
def Inspected (chip : Chip) (lines : List Line) : Prop :=
  ∃ ls, Shown chip 4 inspections ls ∧ .ok "open application" "" :: ls <+: lines

theorem mainBus_inspected {chip : Chip} {bus : List UInt8} (h : Opens chip bus) :
    (mainBus chip bus).Ensures .start fun _ t => Inspected chip t.lines := by
  rcases chip.open_cases bus DEFAULT_ADDR with ⟨_, host, hopen, hlen⟩ | ⟨hnot, _⟩
  · apply Ensures.of_ok (attempt_of_ok (device_of_ok hopen))
    apply Ensures.of_ok (modify_apply _ _)
    refine (checks_reach chip _).mono fun _ t h => ?_
    obtain ⟨ls, hshown, hprefix⟩ := h
    exact ⟨ls, hlen ▸ hshown, hprefix⟩
  · exact absurd h hnot

/-- **Every line shows the answer to its own command**, to the last byte or with its error. -/
theorem main_shows (chip : Chip) (b : String) (hbus : ¬ NoBus [b])
    (hopens : Opens chip (asBytes (busPath b))) :
    (main chip [b]).Ensures .start fun _ t => Inspected chip t.lines := by
  rw [main_of_bus chip hbus]
  exact mainBus_inspected hopens

theorem opens_writingChip {bytes bus : List UInt8} (h : 0 ∉ bus) :
    Opens (writingChip bytes) bus := ⟨h, rfl, rfl, rfl⟩

/-- A library that succeeds, on bus 3. -/
theorem main_shows_writing :
    (main (writingChip [0x07]) ["3"]).Ensures .start fun _ t =>
      Inspected (writingChip [0x07]) t.lines :=
  main_shows _ "3" (by unfold NoBus; decide) (opens_writingChip (by decide))

/-- The run behind the lines of an inspected one has opened. -/
theorem opens_of_inspected {chip chip' : Chip} {args : List String}
    (h : Inspected chip (main chip' args .start).2.lines) :
    ∃ b, args = [b] ∧ Opens chip' (asBytes (busPath b)) ∧
      (main chip' args).Ensures .start fun _ t => Inspected chip' t.lines := by
  obtain ⟨ls, _, more, hlines⟩ := h
  rcases main_cases chip' args with ⟨_, hstart⟩ | ⟨b, _, hargs, hmain⟩
  · rw [hstart] at hlines
    cases hlines
  · rw [hmain] at hlines ⊢
    have hall := mainBus_lines chip' (asBytes (busPath b))
    obtain ⟨_, hbus, _⟩ := hall
    cases hbus with
    | unopened hnot e hline =>
      rw [hline] at hlines
      cases (List.cons.inj hlines).1
    | complete hopens _ _ => exact ⟨b, hargs, hopens, mainBus_inspected hopens⟩

/-- **Two runs with the same output have seen the same objects.** -/
theorem main_faithful (chip chip' : Chip) (b : String) (args : List String)
    (hbus : ¬ NoBus [b]) (hopens : Opens chip (asBytes (busPath b)))
    (hlines : (main chip [b] .start).2.lines = (main chip' args .start).2.lines) :
    (∃ c, args = [c] ∧ Opens chip' (asBytes (busPath c))) ∧
      ∀ (i : Nat) (o : Inspection), inspections[i]? = some o →
        o.Agree (chip.reply (4 + i)) (chip'.reply (4 + i)) := by
  have hfirst : Inspected chip (main chip [b] .start).2.lines := by
    rw [main_of_bus chip hbus]
    exact mainBus_inspected hopens
  obtain ⟨ls, hshown, hprefix⟩ := hfirst
  obtain ⟨c, hargs, hopens', ls', hshown', hprefix'⟩ :=
    opens_of_inspected ⟨ls, hshown, hlines ▸ hprefix⟩
  refine ⟨⟨c, hargs, hopens'⟩, ?_⟩
  -- as many lines of the same output
  rw [hlines] at hprefix
  have hlen : (Line.ok "open application" "" :: ls).length =
      (Line.ok "open application" "" :: ls').length := by
    rw [List.length_cons, List.length_cons, hshown.length_eq, hshown'.length_eq]
  have hsame := (List.prefix_of_prefix_length_le hprefix hprefix' hlen.le).eq_of_length hlen
  obtain rfl : ls = ls' := (List.cons.inj hsame).2
  exact hshown.agree hshown'

/-- A path is taken as it is. -/
theorem busPath_busPath (b : String) : busPath (busPath b) = busPath b := by
  by_cases hdigits : b.toList.all Char.isDigit = true
  · have hpath : busPath b = "/dev/i2c-" ++ b := if_pos hdigits
    rw [hpath]
    apply if_neg
    rw [String.toList_append, List.all_append, Bool.and_eq_true]
    exact fun h => absurd h.1 (by decide)
  · have hpath : busPath b = b := if_neg hdigits
    rw [hpath, hpath]

/-- Bus 3, by its number and by its path. -/
theorem main_faithful_path :
    (∃ c, [busPath "3"] = [c] ∧ Opens (writingChip [0x07]) (asBytes (busPath c))) ∧
      ∀ (i : Nat) (o : Inspection), inspections[i]? = some o →
        o.Agree ((writingChip [0x07]).reply (4 + i)) ((writingChip [0x07]).reply (4 + i)) :=
  main_faithful _ _ "3" [busPath "3"] (by unfold NoBus; decide)
    (opens_writingChip (by decide)) (by
      rw [main_bus _ (by decide) (by decide), main_bus _ (by decide) (by decide), busPath_busPath])

end Trustm
