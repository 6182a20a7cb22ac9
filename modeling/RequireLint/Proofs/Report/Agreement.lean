import Mathlib.Algebra.GroupWithZero.Nat
import RequireLint.Proofs.Report.Decoded
import RequireLint.Proofs.Text.Position
import RequireLint.Report.Render

/-!
# Reports that agree

A run is reported as text, as JSON or as SARIF, and the three forms do not contradict each other.
The two documents are read and decode to the same findings, each result points at the rule that it
names, and the totals of the JSON form are those of the line that closes the text, whether it is
coloured or not: `reports_agree`.
-/

namespace RequireLint

open Text

namespace PlainReport

/-! ## The closing line -/

/-- The last of some lines that all have their line feed. -/
def lastLine? (t : Text) : Option Text :=
  match t.reverse with
  | '\n' :: lines => some (lines.takeWhile (· ≠ '\n')).reverse
  | _ => none

/-- What is seen of a text on a terminal, inside an escape or outside of one. -/
def withoutEscapes (inside : Bool) : Text → Text
  | [] => []
  | c :: t =>
    if inside then withoutEscapes (c != 'm') t
    else if c = '\x1b' then withoutEscapes true t
    else c :: withoutEscapes false t

/-- A number and the words after it. -/
def counted? (words t : Text) : Option (Nat × Text) := do
  let (n, rest) ← natural? t
  return (n, ← dropPrefix? words rest)

/-- The totals that a closing line tells.  Where it does not mention corrections, none were
written. -/
def totalsOf? (line : Text) : Option ReportTotals := do
  let (files, rest) ← counted? " files inspected, " (← dropPrefix? "Summary: " line)
  let (offenses, rest) ← counted? " offenses, " rest
  let (correctable, rest) ← counted? " correctable" rest
  if rest = [] then return { files, offenses, correctable, corrected := 0 }
  let (corrected, rest) ← counted? " corrected" (← dropPrefix? ", " rest)
  if rest = [] then return { files, offenses, correctable, corrected } else none

/-- The totals that the last line of an output tells. -/
def totals? (output : Text) : Option ReportTotals :=
  (lastLine? output).bind fun line => totalsOf? (withoutEscapes false line)

theorem lastLine?_append {above line : Text} (habove : OpensLine above) (hline : '\n' ∉ line) :
    lastLine? (above ++ (line ++ ['\n'])) = some line := by
  have hkeep : ∀ c ∈ line.reverse, decide (c ≠ '\n') = true := by
    intro c hc
    have hmem : c ∈ line := List.mem_reverse.mp hc
    exact decide_eq_true (ne_of_mem_of_not_mem hmem hline)
  have hstop : above.reverse.takeWhile (fun c => decide (c ≠ '\n')) = [] := by
    rcases habove with rfl | ⟨lines, rfl⟩
    · rfl
    · simp
  have htext : (above ++ (line ++ ['\n'])).reverse = '\n' :: (line.reverse ++ above.reverse) := by
    simp
  simp only [lastLine?, htext]
  rw [List.takeWhile_append_of_pos hkeep, hstop, List.append_nil, List.reverse_reverse]

/-- A text on one line, and what is seen of it. -/
structure Shows (shown seen : Text) : Prop where
  feed_not_mem : '\n' ∉ shown
  withoutEscapes_append : ∀ rest,
    withoutEscapes false (shown ++ rest) = seen ++ withoutEscapes false rest

theorem shows_self {t : Text} (hfeed : '\n' ∉ t) (hescape : '\x1b' ∉ t) : Shows t t where
  feed_not_mem := hfeed
  withoutEscapes_append rest := by
    clear hfeed
    induction t with
    | nil => rfl
    | cons c t ih =>
        obtain ⟨hc, ht⟩ := List.ne_and_not_mem_of_not_mem_cons hescape
        rw [List.cons_append, withoutEscapes, if_neg Bool.false_ne_true, if_neg (Ne.symm hc),
          ih ht]
        rfl

theorem not_mem_ofNat {c : Char} (hc : c.isDigit = false) (n : Nat) : c ∉ Text.ofNat n := by
  intro hmem
  rw [isDigit_of_mem_ofNat hmem] at hc
  exact absurd hc (by decide)

theorem shows_ofNat (n : Nat) : Shows (Text.ofNat n) (Text.ofNat n) :=
  shows_self (not_mem_ofNat rfl n) (not_mem_ofNat rfl n)

theorem shows_nil : Shows [] [] := shows_self List.not_mem_nil List.not_mem_nil

theorem Shows.append {shown seen shown' seen' : Text} (h : Shows shown seen)
    (h' : Shows shown' seen') : Shows (shown ++ shown') (seen ++ seen') where
  feed_not_mem := by
    rw [List.mem_append, not_or]
    exact ⟨h.feed_not_mem, h'.feed_not_mem⟩
  withoutEscapes_append rest := by
    rw [List.append_assoc, h.withoutEscapes_append, h'.withoutEscapes_append, List.append_assoc]

/-- An escape is not seen. -/
theorem shows_start (style : Style) : Shows style.start [] where
  feed_not_mem := by cases style <;> decide
  withoutEscapes_append rest := by cases style <;> rfl

theorem shows_reset : Shows Style.reset [] where
  feed_not_mem := by decide
  withoutEscapes_append _ := rfl

theorem Shows.paint {shown seen : Text} (h : Shows shown seen) (useColors : Bool) (style : Style) :
    Shows (paint useColors style shown) seen := by
  cases useColors with
  | false => exact h
  | true =>
      have hpainted := ((shows_start style).append h).append shows_reset
      rw [List.nil_append, List.append_nil] at hpainted
      exact hpainted

theorem Shows.flatten {shown seen : List Text} (h : List.Forall₂ Shows shown seen) :
    Shows shown.flatten seen.flatten := by
  induction h with
  | nil => exact shows_nil
  | cons hfirst _ ih => exact hfirst.append ih

/-- What is seen of the part of the summary about the corrections that were written. -/
def correctedPart (corrected : Nat) : Text :=
  if 0 < corrected then (", " : Text) ++ Text.ofNat corrected ++ (" corrected" : Text) else []

/-- What is seen of the summary, piece by piece. -/
def closingParts (totals : ReportTotals) : List Text :=
  [("Summary: " : Text), Text.ofNat totals.files, (" files inspected, " : Text),
    Text.ofNat totals.offenses, (" offenses, " : Text), Text.ofNat totals.correctable,
    (" correctable" : Text), correctedPart totals.corrected]

/-- The summary is one line, and its colours are all that is not seen of it. -/
theorem exists_summary_eq (layout : Layout) (totals : ReportTotals) :
    ∃ shown, summary layout totals = shown ++ ['\n'] ∧
      Shows shown (closingParts totals).flatten := by
  refine ⟨_, rfl, .flatten ?_⟩
  have hcorrected : Shows (if 0 < totals.corrected then (", " : Text) ++
      RequireLint.paint layout.useColors .green (Text.ofNat totals.corrected) ++
        (" corrected" : Text) else []) (correctedPart totals.corrected) := by
    rw [correctedPart]
    split
    · exact ((shows_self (by decide) (by decide)).append ((shows_ofNat _).paint _ _)).append
        (shows_self (by decide) (by decide))
    · exact shows_nil
  exact .cons (shows_self (by decide) (by decide)) <| .cons (shows_ofNat _) <|
    .cons (shows_self (by decide) (by decide)) <| .cons ((shows_ofNat _).paint _ _) <|
    .cons (shows_self (by decide) (by decide)) <| .cons (shows_ofNat _) <|
    .cons (shows_self (by decide) (by decide)) <| .cons hcorrected .nil

theorem counted?_append {words : Text} (h : words.head? = some ' ') (n : Nat) (t : Text) :
    counted? words (Text.ofNat n ++ (words ++ t)) = some (n, t) := by
  have hends : Json.EndsNumber (words ++ t) := by
    rw [Json.EndsNumber, List.head?_append, h]
    rfl
  have hwords : dropPrefix? words (words ++ t) = some t := dropPrefix?_eq_some.mpr rfl
  simp only [counted?, Text.natural?_ofNat_append n hends, hwords, Option.bind_eq_bind,
    Option.bind_some, Option.pure_def]

/-- The summary tells the totals that it was written for. -/
theorem totalsOf?_closingParts (totals : ReportTotals) :
    totalsOf? (closingParts totals).flatten = some totals := by
  obtain ⟨files, offenses, correctable, corrected⟩ := totals
  have hstart (t : Text) : dropPrefix? "Summary: " (("Summary: " : Text) ++ t) = some t :=
    dropPrefix?_eq_some.mpr rfl
  have hcomma (t : Text) : dropPrefix? ", " ((", " : Text) ++ t) = some t :=
    dropPrefix?_eq_some.mpr rfl
  simp only [closingParts, List.flatten_cons, List.flatten_nil, List.append_nil, totalsOf?, hstart,
    Option.bind_eq_bind, Option.bind_some]
  rw [counted?_append (by rfl), Option.bind_some, counted?_append (by rfl), Option.bind_some,
    counted?_append (by rfl), Option.bind_some, correctedPart]
  by_cases h : 0 < corrected
  · have hcorrected := counted?_append (by rfl : (" corrected" : Text).head? = some ' ')
      corrected []
    rw [List.append_nil] at hcorrected
    simp only [if_pos h, List.append_assoc, hcomma, hcorrected, Option.bind_some]
    rfl
  · obtain rfl : corrected = 0 := by omega
    rfl

/-- The totals are read from the last line, whatever stands above it. -/
theorem totals?_append_summary (layout : Layout) (totals : ReportTotals) {above : Text}
    (habove : OpensLine above) : totals? (above ++ summary layout totals) = some totals := by
  obtain ⟨shown, hsummary, hshown⟩ := exists_summary_eq layout totals
  have hseen : withoutEscapes false (shown ++ []) = (closingParts totals).flatten ++ [] :=
    hshown.withoutEscapes_append []
  rw [List.append_nil, List.append_nil] at hseen
  rw [totals?, hsummary, lastLine?_append habove hshown.feed_not_mem, Option.bind_some, hseen,
    totalsOf?_closingParts]

theorem totals?_render (layout : Layout) (base : Option Text) (reports : List FileReport) :
    totals? (render layout base reports) = some (.ofReports reports) := by
  apply totals?_append_summary
  rcases List.eq_nil_or_concat' (reports.filter (isShown layout)) with hnone | ⟨others, last, hsome⟩
  · left
    rw [hnone, List.flatMap_nil]
  · right
    rw [hsome, List.flatMap_append, List.flatMap_singleton, ← List.append_assoc]
    exact ⟨_, rfl⟩

end PlainReport

/-! ## The three forms together -/

/-- The totals of some reports, counted file by file. -/
theorem ReportTotals.ofReports_eq (reports : List FileReport) :
    ReportTotals.ofReports reports =
      { files := reports.length
        offenses := (reports.map (·.offenses.length)).sum
        correctable := (reports.map fun report =>
          report.offenses.countP (·.correction.isSome)).sum
        corrected := (reports.map (·.corrected)).sum } := by
  rw [ofReports, List.length_flatMap, ← List.countP_eq_length_filter, List.countP_flatMap]
  rfl

/-- The documents are well formed and tell of the same findings, one for each offense and in the
order of the reports.  Each result points at the rule of the driver that it names.  The totals are
the same in the JSON form and in the last line of the text form, and are those of the reports. -/
theorem reports_agree (layout : PlainReport.Layout) (base : Option Text)
    (reports : List FileReport) :
    let findings := reports.flatMap (·.findings base)
    let totals : ReportTotals :=
      { files := reports.length
        offenses := (reports.map (·.offenses.length)).sum
        correctable := (reports.map fun report =>
          report.offenses.countP (·.correction.isSome)).sum
        corrected := (reports.map (·.corrected)).sum }
    ∃ output log rules results,
      Json.read? (ReportFormat.json.render layout base reports) = some output ∧
      Json.read? (ReportFormat.sarif.render layout base reports) = some log ∧
      JsonReport.findings? output = some findings ∧
      SarifReport.findings? log = some findings ∧
      SarifReport.rules? log = some rules ∧
      SarifReport.results? log = some results ∧
      (∀ result ∈ results, SarifReport.PointsAtRule rules result) ∧
      JsonReport.totals? output = some totals ∧
      PlainReport.totals? (ReportFormat.text.render layout base reports) = some totals := by
  intro findings totals
  have htotals : ReportTotals.ofReports reports = totals := ReportTotals.ofReports_eq reports
  refine ⟨JsonReport.toJson base reports, SarifReport.toJson base reports, _, _,
    Json.read?_render _, Json.read?_render _, JsonReport.findings?_toJson base reports,
    SarifReport.findings?_toJson base reports, SarifReport.rules?_toJson base reports,
    SarifReport.results?_toJson base reports, ?_, ?_, ?_⟩
  · intro result hresult
    obtain ⟨report, -, hresult⟩ := List.mem_flatMap.mp hresult
    obtain ⟨offense, -, rfl⟩ := List.mem_map.mp hresult
    exact SarifReport.pointsAtRule_resultJson _ offense
  · rw [← htotals]
    exact JsonReport.totals?_toJson base reports
  · rw [← htotals]
    exact PlainReport.totals?_render layout base reports

end RequireLint
