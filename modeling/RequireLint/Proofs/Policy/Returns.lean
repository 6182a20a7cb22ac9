import RequireLint.Policy.Decision
import RequireLint.Proofs.Path.Returns
import RequireLint.Proofs.Source.Returns
import RequireLint.Rule.Inclusion

/-!
# Judging arguments with carriage returns

The literals of an argument that goes on over several lines may differ in the carriage returns at
the line ends.  A policy judges two such arguments in the same way, provided that the path of the
project root has no line feed: the literals lead to the same places up to carriage returns, and
what the policy looks for in them has no line end in it.
-/

namespace RequireLint

open RequireLint.Path (isWithin expand normalize)
open Text (dropReturns dropReturns_eq_iff)

namespace Expr

/-- A literal without line feeds is a literal of its own. -/
theorem dropReturns_eq_str_iff {argument : Expr} {word : Text} (hword : '\n' ∉ word) :
    argument.dropReturns = .str word ↔ argument = .str word := by
  cases argument <;> simp [Expr.dropReturns, dropReturns_eq_iff hword]

end Expr

namespace Reference

/-- A reference without the carriage returns before line feeds in its literal. -/
def dropReturns (reference : Reference) : Reference :=
  { reference with literal := Text.dropReturns reference.literal }

/-! ## Recognition -/

theorem resolved_dropReturns (literal : Text) (base : Base) (shape : Shape) :
    resolved (Text.dropReturns literal) base shape = (resolved literal base shape).dropReturns := by
  rw [resolved, Path.isAbsolute_dropReturns]
  rfl

theorem ofDirname?_dropReturns (path : Expr) (suffix : Text) :
    ofDirname? path.dropReturns (Text.dropReturns suffix) =
      (ofDirname? path suffix).map dropReturns := by
  have hdot : '.' :: Text.dropReturns suffix = Text.dropReturns ('.' :: suffix) := by
    rw [Text.dropReturns_cons, Text.consReturn_of_ne (by decide)]
  cases path <;> simp [ofDirname?, Expr.dropReturns, dropReturns, hdot]

theorem ofExpandPath_dropReturns (literal : Text) (base : Expr) :
    ofExpandPath (Text.dropReturns literal) base.dropReturns =
      (ofExpandPath literal base).dropReturns := by
  cases base <;> first | rfl | exact resolved_dropReturns literal _ _

/-- Carriage returns do not hide an argument. -/
theorem ofExpr?_dropReturns (argument : Expr) :
    ofExpr? argument.dropReturns = (ofExpr? argument).map dropReturns := by
  cases argument with
  | str literal => exact congrArg some (resolved_dropReturns literal _ _)
  | expandPathFrom path base =>
      cases path with
      | str literal => exact congrArg some (ofExpandPath_dropReturns literal base)
      | _ => rfl
  | concat left right =>
      cases left with
      | dirname path =>
          cases right with
          | str suffix => exact ofDirname?_dropReturns path suffix
          | _ => rfl
      | _ => rfl
  | interpolated parts =>
      cases parts with
      | expr value rest =>
          cases value with
          | dirname path =>
              cases rest with
              | text suffix rest =>
                  cases rest with
                  | nil => exact ofDirname?_dropReturns path suffix
                  | _ => rfl
              | _ => rfl
          | _ => rfl
      | _ => rfl
  | _ => rfl

/-! ## Resolution -/

theorem namesLibrary_dropReturns (literal : Text) :
    namesLibrary (Text.dropReturns literal) = namesLibrary literal := by
  rw [namesLibrary, Text.startsWith_dropReturns (by decide),
    Text.contains_dropReturns (by decide) (by decide), namesLibrary]

theorem afterLibrary?_dropReturns (path : Text) :
    afterLibrary? (Text.dropReturns path) = (afterLibrary? path).map Text.dropReturns := by
  rw [afterLibrary?, Text.afterLast?_dropReturns (by decide) (by decide), afterLibrary?]
  cases Text.afterLast? "/lib/" path with
  | none => rfl
  | some rest =>
      cases rest with
      | nil => rfl
      | cons c rest =>
          have hne : Text.dropReturns (c :: rest) ≠ [] := by
            rw [ne_eq, Text.dropReturns_eq_nil]
            exact List.cons_ne_nil c rest
          obtain ⟨d, others, hcons⟩ := List.exists_cons_of_ne_nil hne
          rw [Option.map_some, hcons]

theorem written_dropReturns (reference : Reference) :
    reference.dropReturns.written = Text.dropReturns reference.written := by
  obtain ⟨literal, base, shape⟩ := reference
  cases shape with
  | dirnameConcat =>
      have hdot : Text.dropPrefix? "." (Text.dropReturns literal) =
          (Text.dropPrefix? "." literal).map Text.dropReturns :=
        Text.dropPrefix?_dropReturns (by decide) literal
      simp only [written, dropReturns, hdot]
      cases Text.dropPrefix? "." literal <;> rfl
  | _ => rfl

section Agreement

variable {reference reference' : Reference} (h : reference'.dropReturns = reference.dropReturns)
include h

theorem literal_of_dropReturns :
    Text.dropReturns reference'.literal = Text.dropReturns reference.literal :=
  congrArg literal h

theorem base_of_dropReturns : reference'.base = reference.base := by
  simpa [dropReturns] using congrArg base h

theorem shape_of_dropReturns : reference'.shape = reference.shape := by
  simpa [dropReturns] using congrArg shape h

/-- The same place is meant, up to carriage returns in its names. -/
theorem target_of_dropReturns (ctx : Context) :
    (reference'.target ctx).map Text.dropReturns = (reference.target ctx).map Text.dropReturns := by
  have hliteral := literal_of_dropReturns h
  rw [target, base_of_dropReturns h, target]
  cases reference.base with
  | fileDirectory => rw [← Path.expand_dropReturns, ← Path.expand_dropReturns, hliteral]
  | file => rw [← Path.expand_dropReturns, ← Path.expand_dropReturns, hliteral]
  | rooted => rw [← Path.normalize_dropReturns, ← Path.normalize_dropReturns, hliteral]
  | unknown => rfl

theorem inLibrary_of_dropReturns {ctx : Context} (hroot : '\n' ∉ ctx.libraryRoot) :
    reference'.inLibrary ctx = reference.inLibrary ctx := by
  have hnames : namesLibrary reference'.literal = namesLibrary reference.literal := by
    rw [← namesLibrary_dropReturns, literal_of_dropReturns h, namesLibrary_dropReturns]
  have hwithin : ∀ place : Option Text, place.any (isWithin · ctx.libraryRoot) =
      (place.map Text.dropReturns).any (isWithin · ctx.libraryRoot) := by
    intro place
    rw [Option.any_map]
    congr 1
    funext path
    exact (Path.isWithin_dropReturns hroot path).symm
  have htarget : (reference'.target ctx).any (isWithin · ctx.libraryRoot) =
      (reference.target ctx).any (isWithin · ctx.libraryRoot) := by
    rw [hwithin, target_of_dropReturns h, ← hwithin]
  have hinLibrary : ∀ reference : Reference, reference.inLibrary ctx =
      if reference.base = .unknown then namesLibrary reference.literal
      else (reference.target ctx).any (isWithin · ctx.libraryRoot) := by
    intro reference
    rw [inLibrary]
    cases reference.base <;> cases reference.target ctx <;> rfl
  rw [hinLibrary, hinLibrary, base_of_dropReturns h, hnames, htarget]

theorem loadName?_of_dropReturns (ctx : Context) :
    (reference'.loadName? ctx).map Text.dropReturns =
      (reference.loadName? ctx).map Text.dropReturns := by
  have hliteral : Text.dropReturns ('/' :: reference'.literal) =
      Text.dropReturns ('/' :: reference.literal) := by
    rw [Text.dropReturns_cons, literal_of_dropReturns h, Text.dropReturns_cons]
  have hbind : ∀ place : Option Text, (place.bind afterLibrary?).map Text.dropReturns =
      (place.map Text.dropReturns).bind afterLibrary? := by
    intro place
    cases place with
    | none => rfl
    | some path => exact (afterLibrary?_dropReturns path).symm
  have htarget : ((reference'.target ctx).bind afterLibrary?).map Text.dropReturns =
      ((reference.target ctx).bind afterLibrary?).map Text.dropReturns := by
    rw [hbind, target_of_dropReturns h, ← hbind]
  rw [loadName?, base_of_dropReturns h, loadName?]
  cases reference.base with
  | unknown => rw [← afterLibrary?_dropReturns, hliteral, afterLibrary?_dropReturns]
  | _ => exact htarget

theorem contains_written_of_dropReturns {word : Text} (hword : Text.Inline word)
    (hne : word ≠ []) :
    Text.contains reference'.written word = Text.contains reference.written word := by
  rw [← Text.contains_dropReturns hword hne, ← written_dropReturns, h, written_dropReturns,
    Text.contains_dropReturns hword hne]

end Agreement

end Reference

/-! ## Judgement -/

/-- What a reader of a judgement sees: whether the call offends, and whether there is something to
write instead. -/
def Decision.seen (decision : Decision) : Bool × Bool :=
  (decision.offense, decision.replacement.isSome)

namespace Policy

variable {ctx : Context} (hroot : '\n' ∉ ctx.libraryRoot)
include hroot

theorem isMatch_of_dropReturns (policy : Policy) {reference reference' : Reference}
    (h : reference'.dropReturns = reference.dropReturns) :
    policy.isMatch reference' ctx = policy.isMatch reference ctx := by
  cases policy with
  | hardcodingLib => exact Reference.inLibrary_of_dropReturns h hroot
  | relativeHardcodingLib => exact Reference.inLibrary_of_dropReturns h hroot
  | textualRelativeLib =>
      exact Reference.contains_written_of_dropReturns h (by decide) (by decide)
  | textualRelativePath =>
      exact Reference.contains_written_of_dropReturns h (by decide) (by decide)

theorem seen_decide_of_dropReturns (policy : Policy) (kind : Directive)
    {reference reference' : Reference} (h : reference'.dropReturns = reference.dropReturns) :
    (policy.decide kind reference' ctx).seen = (policy.decide kind reference ctx).seen := by
  have hreplacement : (reference'.canonicalReplacement ctx).isSome =
      (reference.canonicalReplacement ctx).isSome := by
    have hname := congrArg Option.isSome (Reference.loadName?_of_dropReturns h ctx)
    simpa [Reference.canonicalReplacement] using hname
  rw [decide, Reference.shape_of_dropReturns h, isMatch_of_dropReturns hroot policy h, decide]
  split
  · cases hcorrects : policy.autocorrects with
    | true => simp only [Decision.seen, if_true, hreplacement]
    | false => rfl
  · rfl

/-- Two arguments that are the same up to carriage returns at their line ends are judged alike. -/
theorem seen_evaluate_of_dropReturns (policy : Policy) (kind : Directive)
    {argument argument' : Expr} (h : argument'.dropReturns = argument.dropReturns) :
    (policy.evaluate kind argument' ctx).seen = (policy.evaluate kind argument ctx).seen := by
  have href : (Reference.ofExpr? argument').map Reference.dropReturns =
      (Reference.ofExpr? argument).map Reference.dropReturns := by
    rw [← Reference.ofExpr?_dropReturns, h, Reference.ofExpr?_dropReturns]
  rw [evaluate, evaluate]
  cases hreference : Reference.ofExpr? argument with
  | none =>
      rw [hreference, Option.map_none, Option.map_eq_none_iff] at href
      rw [href]
  | some reference =>
      rw [hreference] at href
      obtain ⟨reference', hreference', heq⟩ := Option.map_eq_some_iff.mp href
      rw [hreference']
      exact seen_decide_of_dropReturns hroot policy kind heq

end Policy

namespace Context

/-- The library of a project lies on a path without line feeds when the project does. -/
theorem libraryRoot_no_feed {root : Text} (hroot : '\n' ∉ root) (file : Text) :
    '\n' ∉ (ofPaths root file).libraryRoot := by
  have hslash : '\n' ∉ Path.toSlash root := by
    intro hmem
    obtain ⟨c, hc, hfeed⟩ := List.mem_map.mp hmem
    split at hfeed
    · exact absurd hfeed (by decide)
    · exact hroot (hfeed ▸ hc)
  have hproject : '\n' ∉ (ofPaths root file).projectRoot := by
    intro hmem
    change '\n' ∈ (normalize (Path.toSlash root)).getD (Path.toSlash root) at hmem
    cases hnormal : normalize (Path.toSlash root) with
    | none =>
        rw [hnormal] at hmem
        exact hslash hmem
    | some text =>
        rw [hnormal] at hmem
        rcases Path.mem_of_normalize hnormal hmem with hfeed | hmem
        · exact absurd hfeed (by decide)
        · exact hslash hmem
  rw [libraryRoot, Path.join]
  split <;> simp [hproject]

end Context

end RequireLint
