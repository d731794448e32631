import Trustm.Check.Output
import Trustm.Support.Text

/-!
# The printed text

What `trustm-check` prints on a bus, character by character: a header, one line for each report
with its columns and the time the check took, and the counts.

* `output`: the whole text. The times are free, and so is the path in the header.
* `Line.print_inj`: the columns of a line can be told apart.
* `main_printed`: two runs that print the same text have made the same reports, with the same
  counts and the same exit code.
-/

namespace Trustm

open Outcome Effect

/-! ## Text -/

/-- `{name:<48}` -/
def column (name : String) : List Char := name.toList.rightpad 48 ' '

/-- `{ms:>6} ms` -/
def elapsed (ms : Nat) : List Char := (toString ms).toList.leftpad 6 ' ' ++ ' ' :: "ms".toList

def Line.tag : Line → String
  | .ok _ _ => "ok    "
  | .fail _ _ => "FAIL  "
  | .skip _ => "skip  "

/-- What stands behind the name, when the check took `ms` milliseconds. -/
def Line.rest (ms : Nat) : Line → List Char
  | .ok name info =>
    ' ' :: (elapsed ms ++ if name ∈ textless then [] else "  ".toList ++ info.toList)
  | .fail _ e => ' ' :: (elapsed ms ++ ("  ".toList ++ e.display.toList))
  | .skip _ => []

def Line.print (ms : Nat) (l : Line) : List Char :=
  l.tag.toList ++ (column l.name ++ l.rest ms)

example : (Line.ok "read security status (0xE0C1)" "07").print 2 =
    "ok    read security status (0xE0C1)                         2 ms  07".toList := by decide

/-- The line of `Report::finish`. -/
def Report.summary (r : Report) : List Char :=
  (toString r.passed).toList ++ ' ' :: ("passed, ".toList ++
    ((toString r.failed).toList ++ ' ' :: "failed".toList))

/-- `trustm-check: {bus} addr 0x{addr:02x}` -/
def header (bus : List Char) : List Char :=
  "trustm-check: ".toList ++ bus ++ " addr 0x".toList ++ (hexByte DEFAULT_ADDR).toList

/-- The lines behind the header, when the check of line `i` took `ms i` milliseconds. -/
def CheckState.printed (ms : Nat → Nat) (m : CheckState) : List (List Char) :=
  m.lines.mapIdx (fun i l => l.print (ms i)) ++ [m.report.summary]

def output (bus : List Char) (ms : Nat → Nat) (m : CheckState) : List Char :=
  Text.lines '\n' (header bus :: m.printed ms)

/-! ## Columns -/

/-- A name that fills its column no further than to its end. -/
structure FitsColumn (name : String) : Prop where
  width : name.toList.length ≤ 48
  last : name.toList.getLast? ≠ some ' '
  oneLine : OneLine name

theorem fits_ofList {l : List Char} (h : l.length ≤ 48 ∧ l.getLast? ≠ some ' ' ∧ '\n' ∉ l) :
    FitsColumn (String.ofList l) := by
  refine ⟨?_, ?_, oneLine_ofList h.2.2⟩ <;> rw [String.toList_ofList]
  · exact h.1
  · exact h.2.1

theorem checkNames_fit : ∀ name ∈ checkNames, FitsColumn name := by
  simp only [checkNames, laterNames, cryptoNames, signNames, List.cons_append, List.nil_append,
    List.forall_mem_cons, List.not_mem_nil, false_imp_iff, implies_true, and_true]
  and_intros
  all_goals exact fits_ofList (by decide)

theorem toString_digits {n : Nat} :
    ' ' ∉ (toString n).toList ∧ (toString n).toList ≠ [] := by
  constructor
  · intro h
    cases isDigit_of_mem_toString h
  · rw [Nat.toString_eq_ofList_toDigits, String.toList_ofList]
    exact Nat.toDigits_ne_nil

/-- The time ends at its unit. -/
theorem elapsed_append_inj {ms ms' : Nat} {s t : List Char}
    (h : elapsed ms ++ s = elapsed ms' ++ t) : s = t := by
  rw [elapsed, elapsed, List.append_assoc, List.append_assoc] at h
  have hrest := (Text.leftpad_append_inj toString_digits.1 toString_digits.1 toString_digits.2
    toString_digits.2 h).2
  exact List.append_cancel_left hrest

theorem newline_not_mem_elapsed (ms : Nat) : '\n' ∉ elapsed ms := by
  have hunit : OneLine "ms" := oneLine_ofList (by decide)
  rw [elapsed, List.mem_append, List.mem_cons]
  refine not_or.mpr ⟨?_, not_or.mpr ⟨by decide, hunit⟩⟩
  exact Text.not_mem_leftpad (oneLine_toString ms) (by decide)

namespace Line

variable {ms ms' : Nat} {l l' : Line}

theorem length_tag (l : Line) : l.tag.toList.length = 6 := by
  cases l <;> simp [tag]

/-- The three columns of a line. -/
theorem print_columns (hname : FitsColumn l.name) (hname' : FitsColumn l'.name)
    (h : l.print ms = l'.print ms') :
    l.tag = l'.tag ∧ l.name = l'.name ∧ l.rest ms = l'.rest ms' := by
  have hlen : l.tag.toList.length = l'.tag.toList.length := by
    rw [length_tag, length_tag]
  obtain ⟨htag, h⟩ := List.append_inj h hlen
  obtain ⟨hnames, hrest⟩ := Text.rightpad_append_inj hname.width hname'.width hname.last
    hname'.last h
  exact ⟨String.toList_inj.mp htag, String.toList_inj.mp hnames, hrest⟩

/-- Each line is told by its text, whatever the times. -/
theorem print_inj (hl : l.Proper) (hl' : l'.Proper) (hname : FitsColumn l.name)
    (hname' : FitsColumn l'.name) (h : l.print ms = l'.print ms') : l = l' := by
  obtain ⟨htag, hnames, hrest⟩ := print_columns hname hname' h
  cases l with
  | ok name info =>
    cases l' with
    | ok name' info' =>
      obtain rfl : name = name' := hnames
      have htext := elapsed_append_inj (List.cons.inj hrest).2
      by_cases hmem : name ∈ textless
      · rw [hl.2 hmem, hl'.2 hmem]
      · rw [if_neg hmem, if_neg hmem] at htext
        rw [String.toList_inj.mp (List.append_cancel_left htext)]
    | _ => simp [tag] at htag
  | fail name e =>
    cases l' with
    | fail name' e' =>
      obtain rfl : name = name' := hnames
      have htext := elapsed_append_inj (List.cons.inj hrest).2
      rw [display_injective (String.toList_inj.mp (List.append_cancel_left htext))]
    | _ => simp [tag] at htag
  | skip name =>
    cases l' with
    | skip name' => exact congrArg Line.skip hnames
    | _ => simp [tag] at htag

theorem newline_not_mem_rest (hl : l.Proper) : '\n' ∉ l.rest ms := by
  have hspaces : OneLine "  " := oneLine_ofList (by decide)
  cases l with
  | ok name info =>
    rw [rest, List.mem_cons, List.mem_append]
    refine not_or.mpr ⟨by decide, not_or.mpr ⟨newline_not_mem_elapsed ms, ?_⟩⟩
    split
    · exact List.not_mem_nil
    · rw [← String.toList_append]
      exact hspaces.append hl.1
  | fail name e =>
    rw [rest, List.mem_cons, List.mem_append, ← String.toList_append]
    exact not_or.mpr ⟨by decide, not_or.mpr ⟨newline_not_mem_elapsed ms, hspaces.append hl⟩⟩
  | skip name => exact List.not_mem_nil

/-- A proper line stays on one. -/
theorem newline_not_mem_print (hl : l.Proper) (hname : FitsColumn l.name) : '\n' ∉ l.print ms := by
  have htag : OneLine l.tag := by
    cases l <;> exact oneLine_ofList (by decide)
  rw [print, List.mem_append, List.mem_append]
  refine not_or.mpr ⟨htag, not_or.mpr ⟨?_, newline_not_mem_rest hl⟩⟩
  exact Text.not_mem_rightpad hname.oneLine (by decide)

end Line

/-! ## The last line -/

theorem newline_not_mem_summary (r : Report) : '\n' ∉ r.summary := by
  have hpassed : OneLine "passed, " := oneLine_ofList (by decide)
  have hfailed : OneLine "failed" := oneLine_ofList (by decide)
  rw [Report.summary, List.mem_append, List.mem_cons, List.mem_append, List.mem_append,
    List.mem_cons]
  refine not_or.mpr ⟨oneLine_toString _, not_or.mpr ⟨by decide, not_or.mpr ⟨hpassed, ?_⟩⟩⟩
  exact not_or.mpr ⟨oneLine_toString _, not_or.mpr ⟨by decide, hfailed⟩⟩

theorem summary_injective : Function.Injective Report.summary := by
  intro r r' h
  obtain ⟨hpassed, h⟩ := Text.append_cons_inj toString_digits.1 toString_digits.1 h
  have h := List.append_cancel_left h
  have hfailed := (Text.append_cons_inj toString_digits.1 toString_digits.1 h).1
  have hpassed := toString_inj (String.toList_inj.mp hpassed)
  have hfailed := toString_inj (String.toList_inj.mp hfailed)
  cases r
  cases r'
  congr

/-! ## Runs -/

section Runs

variable {chip chip' : Chip} {bus bus' : List UInt8}

/-- What is known of the report of a run. -/
structure Printable (chip : Chip) (bus : List UInt8) (t : CheckState) : Prop where
  tallied : Tallied t
  busLines : BusLines chip bus t.lines
  proper : ∀ l ∈ t.lines, l.Proper
  opened : Opens chip bus → 0 < t.report.passed

theorem mainBus_printable (chip : Chip) (bus : List UInt8) :
    (mainBus chip bus).Ensures .start fun r t => Printable chip bus t ∧
      r = if t.report.failed > 0 then .err 1 else .ok () := by
  have hproper : ∀ l ∈ (mainBus chip bus .start).2.lines, l.Proper := by
    apply Performs.keeps (I := fun ls : List Line => ∀ l ∈ ls, l.Proper) (mainBus_adds bus)
    · intro ls l hl hls k hk
      rcases List.mem_append.mp hk with hold | hnew
      · exact hls k hold
      · rw [List.mem_singleton.mp hnew]
        exact hl
    · exact fun l hl => (List.not_mem_nil hl).elim
  obtain ⟨htallied, hlines, hexit⟩ := mainBus_lines chip bus
  refine ⟨⟨htallied, hlines, hproper, ?_⟩, hexit⟩
  intro hopens
  obtain ⟨ls, _, hprefix⟩ := mainBus_inspected hopens
  rw [htallied.passed, List.countP_pos_iff]
  exact ⟨_, hprefix.subset List.mem_cons_self, rfl⟩

namespace Printable

variable {t t' : CheckState}

theorem fits (h : Printable chip bus t) {l : Line} (hl : l ∈ t.lines) : FitsColumn l.name := by
  apply checkNames_fit
  cases h.busLines with
  | unopened _ e hline =>
    rw [hline] at hl
    rw [List.mem_singleton.mp hl]
    exact List.mem_cons_self
  | complete _ hnames _ =>
    rw [← hnames]
    exact List.mem_map_of_mem hl

theorem newline_not_mem (h : Printable chip bus t) (ms : Nat → Nat) :
    ∀ s ∈ t.printed ms, '\n' ∉ s := by
  intro s hs
  rcases List.mem_append.mp hs with hline | hlast
  · obtain ⟨i, hi, rfl⟩ := List.mem_mapIdx.mp hline
    have hmem := List.getElem_mem hi
    exact Line.newline_not_mem_print (h.proper _ hmem) (h.fits hmem)
  · rw [List.mem_singleton.mp hlast]
    exact newline_not_mem_summary t.report

theorem passed_eq_zero (h : Printable chip bus t) {name : String} {e : Error}
    (hline : t.lines = [.fail name e]) : t.report.passed = 0 := by
  rw [h.tallied.passed, hline]
  rfl

/-- The counts tell whether the run has opened, and so how many lines there are. -/
theorem length_eq (h : Printable chip bus t) (h' : Printable chip' bus' t')
    (hreport : t.report = t'.report) : t.lines.length = t'.lines.length := by
  cases h.busLines with
  | unopened hnot e hline =>
    cases h'.busLines with
    | unopened _ e' hline' => rw [hline, hline', List.length_singleton, List.length_singleton]
    | complete hopens' _ _ =>
      have hpos := h'.opened hopens'
      rw [← hreport, h.passed_eq_zero hline] at hpos
      exact absurd hpos (Nat.lt_irrefl 0)
  | complete hopens hnames _ =>
    cases h'.busLines with
    | unopened _ e' hline' =>
      have hpos := h.opened hopens
      rw [hreport, h'.passed_eq_zero hline'] at hpos
      exact absurd hpos (Nat.lt_irrefl 0)
    | complete _ hnames' _ =>
      rw [← List.length_map (f := Line.name), hnames, ← hnames', List.length_map]

/-- **The text tells the lines.** -/
theorem lines_eq (h : Printable chip bus t) (h' : Printable chip' bus' t') {b b' : List Char}
    {ms ms' : Nat → Nat} (heq : output b ms t = output b' ms' t') :
    t.report = t'.report ∧ t.lines = t'.lines := by
  have hlines := Text.lines_cons_inj (h.newline_not_mem ms) (h'.newline_not_mem ms') heq
  rw [CheckState.printed, CheckState.printed, ← List.append_assoc, ← List.append_assoc] at hlines
  obtain ⟨hbody, hlast⟩ := List.append_inj' hlines rfl
  have hreport := summary_injective (List.cons.inj hlast).1
  have hlen := h.length_eq h' hreport
  have hbody := (List.append_inj' hbody (by rw [List.length_mapIdx, List.length_mapIdx, hlen])).2
  refine ⟨hreport, List.ext_getElem hlen fun i hi hi' => ?_⟩
  have hprint : t.lines[i].print (ms i) = t'.lines[i].print (ms' i) := by
    have hget := congrArg (fun ls : List (List Char) => ls[i]?) hbody
    simpa [hi, hi'] using hget
  exact Line.print_inj (h.proper _ (List.getElem_mem hi)) (h'.proper _ (List.getElem_mem hi'))
    (h.fits (List.getElem_mem hi)) (h'.fits (List.getElem_mem hi')) hprint

end Printable

end Runs

/-- **Two runs that print the same text have made the same reports**, on whatever chips, with
whatever times and under whatever headers, and the text also tells the exit code. No report breaks
its line. -/
theorem main_printed (chip chip' : Chip) {b b' : String} (hb : ¬ NoBus [b])
    (hb' : ¬ NoBus [b']) (bus bus' : List Char) (ms ms' : Nat → Nat)
    (h : output bus ms (main chip [b] .start).2 = output bus' ms' (main chip' [b'] .start).2) :
    (main chip [b] .start).2.report = (main chip' [b'] .start).2.report ∧
      (main chip [b] .start).2.lines = (main chip' [b'] .start).2.lines ∧
      exitCode (main chip [b] .start).1 = exitCode (main chip' [b'] .start).1 ∧
      ∀ l ∈ (main chip [b] .start).2.printed ms, '\n' ∉ l := by
  rw [main_of_bus chip hb, main_of_bus chip' hb'] at h ⊢
  obtain ⟨hprintable, hexit⟩ := mainBus_printable chip (asBytes (busPath b))
  obtain ⟨hprintable', hexit'⟩ := mainBus_printable chip' (asBytes (busPath b'))
  obtain ⟨hreport, hlines⟩ := hprintable.lines_eq hprintable' h
  refine ⟨hreport, hlines, ?_, hprintable.newline_not_mem ms⟩
  rw [hexit, hexit', hreport]

/-- Bus 3, by its number and by its path. -/
theorem main_printed_path :
    (main (writingChip [0x07]) ["3"] .start).2.report =
        (main (writingChip [0x07]) [busPath "3"] .start).2.report ∧
      (main (writingChip [0x07]) ["3"] .start).2.lines =
        (main (writingChip [0x07]) [busPath "3"] .start).2.lines ∧
      exitCode (main (writingChip [0x07]) ["3"] .start).1 =
        exitCode (main (writingChip [0x07]) [busPath "3"] .start).1 ∧
      ∀ l ∈ (main (writingChip [0x07]) ["3"] .start).2.printed (fun _ => 2), '\n' ∉ l :=
  main_printed _ _ (by unfold NoBus; decide) (by unfold NoBus; decide) "/dev/i2c-3".toList
    "/dev/i2c-3".toList (fun _ => 2) (fun _ => 2)
    (by
      rw [main_bus _ (by decide) (by decide), main_bus _ (by decide) (by decide), busPath_busPath])

end Trustm
