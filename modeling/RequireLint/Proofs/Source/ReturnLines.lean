import RequireLint.Proofs.Source.Lines
import RequireLint.Proofs.Source.Returns

/-!
# Reading lines with carriage returns

The carriage returns at the end of a line belong to its end, so a line has the same body with and
without them.  The statements of the line are the same, and an argument that goes on over the
following lines says the same.
-/

namespace RequireLint

open Text

/-- What the rules see of a call, with the carriage returns before line feeds taken out of its
argument. -/
def InclusionCall.seen (call : InclusionCall) : Directive × Expr × Nat × Nat :=
  (call.kind, call.argument.dropReturns, call.span.line, call.span.column)

theorem Ends.withReturns {ends after : Text} (h : Ends ends after) :
    Ends (withReturns ends) (withReturns after) := by
  have hkept : ∀ returns : Text, (∀ c ∈ returns, c = '\r') →
      Text.withReturns returns = returns := by
    intro returns hreturns
    apply withReturns_of_no_feed
    intro hfeed
    exact absurd (hreturns _ hfeed) (by decide)
  rcases h with ⟨returns, rfl, hreturns⟩ | ⟨hreturns, rfl⟩
  · refine .inl ⟨returns ++ ['\r'], by simp [hkept returns hreturns], ?_⟩
    intro c hc
    rcases List.mem_append.mp hc with hc | hc
    · exact hreturns c hc
    · exact List.mem_singleton.mp hc
  · exact .inr ⟨by rwa [hkept ends hreturns], rfl⟩

section Line

variable {body ends after : Text} (hbody : IsBody body)
include hbody

/-- A statement is read in the same way whatever the lines end in. -/
theorem seen_reading? {statement : Statement} (hstatement : statement ∈ Statement.ofLine body)
    (number start start' : Nat) :
    (statement.reading? number ⟨start', body ++ withReturns ends, withReturns after⟩).map
        (·.call.seen) =
      (statement.reading? number ⟨start, body ++ ends, after⟩).map (·.call.seen) := by
  cases hopening : statement.opening? with
  | none =>
      rw [Statement.reading?_of_opening?_eq_none hopening,
        Statement.reading?_of_opening?_eq_none hopening]
  | some opening =>
      obtain ⟨kind, column, argumentOffset⟩ := opening
      obtain ⟨lead, tail, hsplit, -, hdrop⟩ := Statement.exists_argument_eq hstatement hopening
      have htail : withReturns (tail ++ (ends ++ after)) =
          tail ++ (withReturns ends ++ withReturns after) := by
        have hfree : '\n' ∉ tail := by
          intro hfeed
          exact hbody.1 (hsplit ▸ List.mem_append_right lead hfeed)
        rw [withReturns_append, withReturns_append, withReturns_of_no_feed hfree]
      have hdrop' := hdrop start' (withReturns ends) (withReturns after)
      rw [← htail] at hdrop'
      rcases Expr.agree_parse? (tail ++ (ends ++ after)) with
        ⟨hnone, hnone'⟩ | ⟨argument, argument', rest, hsome, hsome', -, hargument⟩
      · obtain ⟨stop, hread⟩ := Statement.exists_reading?_of_parse?_eq_none number hopening
          (by rw [hdrop start ends after]; exact hnone)
        obtain ⟨stop', hread'⟩ := Statement.exists_reading?_of_parse?_eq_none number hopening
          (by rw [hdrop']; exact hnone')
        rw [hread, hread']
        rfl
      · rw [Statement.reading?_of_parse? hopening (hdrop start ends after) hsome,
          Statement.reading?_of_parse? hopening hdrop' hsome']
        simp only [Option.map_some, InclusionCall.seen, hargument]

theorem seen_lineReadings (hends : Ends ends after) (number start start' : Nat) :
    (lineReadings number ⟨start', body ++ withReturns ends, withReturns after⟩).map
        (·.call.seen) =
      (lineReadings number ⟨start, body ++ ends, after⟩).map (·.call.seen) := by
  rw [lineReadings, lineReadings, body_append_ends hbody hends,
    body_append_ends hbody hends.withReturns, List.map_filterMap, List.map_filterMap]
  apply List.filterMap_congr
  intro statement hstatement
  exact seen_reading? hbody hstatement number start start'

end Line

/-- The reader sees the same line by line. -/
theorem seen_readingsFrom (t : Text) (comment : Bool) (number start start' : Nat) :
    (readingsFrom comment number start' (withReturns t)).map (·.call.seen) =
      (readingsFrom comment number start t).map (·.call.seen) := by
  induction t using lineInduction generalizing comment number start start' with
  | nil => simp
  | line body ends after hbody hends hne ih =>
      have hne' : body ++ withReturns ends ≠ [] := by
        simpa [withReturns_eq_nil] using hne
      rw [withReturns_append, withReturns_append, withReturns_of_no_feed hbody.1,
        readingsFrom_line hbody hends hne, readingsFrom_line hbody hends.withReturns hne',
        List.map_append, List.map_append]
      congr 1
      · split
        · exact seen_lineReadings hbody hends number start start'
        · rfl
      · cases nextComment? comment body with
        | none => rfl
        | some later => exact ih later (number + 1) _ _

theorem seen_inclusionCalls (content : Text) :
    (inclusionCalls (withReturns content)).map InclusionCall.seen =
      (inclusionCalls content).map InclusionCall.seen := by
  rw [inclusionCalls, inclusionCalls, List.map_map, List.map_map]
  exact seen_readingsFrom content false 1 0 0

end RequireLint
