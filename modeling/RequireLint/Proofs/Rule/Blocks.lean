import RequireLint.Proofs.Rule.Specification
import RequireLint.Proofs.Source.Commented

/-!
# What a specification block takes up

The specification blocks of a content are computed as ranges of bytes: a header is found, then a
word or a brace on the rest of its line, and then the end, by a count of open braces or by a search
over the lines below.  Here they are described as pieces of the content.  A block of braces goes up
to where its braces first balance, a block of lines up to the first line that closes it.

Main statement: the blocks of a content are exactly the pieces described.
-/

namespace RequireLint

open Text

/-! ## Lines -/

namespace Text

/-- A line of a content, without its line feed, and what stands above and below it. -/
structure IsLine (content above line below : Text) : Prop where
  split : content = above ++ line ++ below
  opens : OpensLine above
  no_feed : '\n' ∉ line
  ends : below = [] ∨ ∃ later, below = '\n' :: later

/-- A line whose first character that is no blank is a `#`. -/
def StartsComment (line : Text) : Prop := (trimStart line).head? = some '#'

/-- No word goes on with a text. -/
def EndsWord (t : Text) : Prop := ∀ c ∈ t.head?, isWord c = false

theorem continuesWord_eq_false_iff {t : Text} :
    Specification.continuesWord t = false ↔ EndsWord t := by
  rw [Specification.continuesWord_eq, EndsWord]
  cases t.head? <;> simp

end Text

namespace Specification

/-- A position counts as commented out when its line starts with a `#`, as long as something else
stands at the position itself. -/
theorem onCommentLine_iff {content above before rest below : Text} {c : Char}
    (hline : IsLine content above (before ++ c :: rest) below) (hblank : isBlank c = false)
    (hhash : c ≠ '#') :
    onCommentLine content (byteSize (above ++ before)) = true ↔
      StartsComment (before ++ c :: rest) := by
  have hbefore : '\n' ∉ before := fun hmem => hline.no_feed (List.mem_append_left _ hmem)
  have hcut : lineBefore content (byteSize (above ++ before)) = before := by
    rw [hline.split, ← List.append_assoc above, List.append_assoc, lineBefore_append,
      hline.opens.lastLine_append hbefore]
  rw [onCommentLine, hcut, startsWith_hash_iff, StartsComment, head?_trimStart_cons hblank]
  cases (trimStart before).head? with
  | none => simpa using hhash
  | some first => simp

/-! ## Headers -/

/-- A line with the constructor of a block, between the lines above it and those below it. -/
structure Header where
  above : Text
  /-- The line before the constructor. -/
  before : Text
  /-- The line behind the constructor. -/
  behind : Text
  below : Text

namespace Header

def line (header : Header) : Text := header.before ++ constructor ++ header.behind

/-- The content up to the end of the constructor. -/
def lead (header : Header) : Text := header.above ++ header.before ++ constructor

/-- A header stands in a content when no word goes on behind its constructor and its line does not
start with a `#`. -/
structure StandsIn (header : Header) (content : Text) : Prop where
  isLine : IsLine content header.above header.line header.below
  endsWord : EndsWord header.behind
  isCode : ¬ StartsComment header.line

variable {header : Header} {content : Text}

theorem StandsIn.content_eq (h : header.StandsIn content) :
    content = header.lead ++ (header.behind ++ header.below) := by
  simp [h.isLine.split, lead, line]

theorem onCommentLine_iff (header : Header)
    (h : IsLine content header.above header.line header.below) :
    onCommentLine content (byteSize (header.above ++ header.before)) = true ↔
      StartsComment header.line := by
  have hline : header.line = header.before ++ 'G' :: (constructor.tail ++ header.behind) := by
    rw [line, List.append_assoc]
    rfl
  rw [hline] at h ⊢
  exact Specification.onCommentLine_iff h (by decide) (by decide)

end Header

theorem isHeader_iff {t : Text} :
    isHeader t = true ↔ ∃ after, t = constructor ++ after ∧ EndsWord after := by
  rw [isHeader]
  cases hafter : dropPrefix? constructor t with
  | none =>
      have hprefix := dropPrefix?_eq_none.mp hafter
      refine iff_of_false (by simp) ?_
      rintro ⟨after, rfl, -⟩
      exact hprefix (List.prefix_append constructor after)
  | some after =>
      obtain rfl := dropPrefix?_eq_some.mp hafter
      simp [continuesWord_eq_false_iff]

/-- A word does not go on over the end of a line. -/
theorem endsWord_append_iff {behind below : Text}
    (hbelow : below = [] ∨ ∃ later, below = '\n' :: later) :
    EndsWord (behind ++ below) ↔ EndsWord behind := by
  have hfeed : isWord '\n' = false := by decide
  cases behind with
  | nil => rcases hbelow with rfl | ⟨later, rfl⟩ <;> simp [EndsWord, hfeed]
  | cons c behind => rfl

theorem mem_headers_iff {content : Text} {position : Nat} :
    position ∈ headers content ↔
      ∃ header : Header, header.StandsIn content ∧ position = byteSize header.lead := by
  rw [headers_eq, List.mem_map]
  constructor
  · rintro ⟨start, hstart, rfl⟩
    obtain ⟨hposition, hcomment⟩ := List.mem_filter.mp hstart
    obtain ⟨prior, rest, hsplit, rfl, hheader⟩ := exists_of_mem_positionsFrom hposition
    obtain ⟨after, rfl, hword⟩ := isHeader_iff.mp hheader
    obtain ⟨above, before, rfl, habove, hbefore⟩ := OpensLine.exists_append prior
    obtain ⟨behind, below, rfl, hbehind, hbelow⟩ := exists_firstLine after
    let header : Header := ⟨above, before, behind, below⟩
    have hfeed : '\n' ∉ constructor := by decide
    have hline : IsLine content above header.line below := by
      refine ⟨by simp [hsplit, header, Header.line], habove, ?_, hbelow⟩
      simp [header, Header.line, hbefore, hfeed, hbehind]
    rw [Nat.zero_add] at hcomment ⊢
    refine ⟨header, ⟨hline, (endsWord_append_iff hbelow).mp hword, ?_⟩, ?_⟩
    · intro hstarts
      rw [(header.onCommentLine_iff hline).mpr hstarts] at hcomment
      exact absurd hcomment (by decide)
    · rw [Header.lead, byteSize_append _ constructor]
  · rintro ⟨header, hheader, rfl⟩
    refine ⟨byteSize (header.above ++ header.before), List.mem_filter.mpr ⟨?_, ?_⟩, ?_⟩
    · have hword := (endsWord_append_iff hheader.isLine.ends).mpr hheader.endsWord
      have hstarts := isHeader_iff.mpr ⟨_, rfl, hword⟩
      rw [hheader.content_eq, Header.lead, List.append_assoc, ← Nat.zero_add (byteSize _)]
      exact mem_positionsFrom hstarts 0 _
    · rw [Bool.not_eq_true', ← Bool.not_eq_true, header.onCommentLine_iff hheader.isLine]
      exact hheader.isCode
    · rw [Header.lead, byteSize_append _ constructor]

/-! ## Openers -/

/-- The word `do` stands by itself in a text. -/
def HoldsDo (t : Text) : Prop :=
  ∃ before after, t = before ++ 'd' :: 'o' :: after ∧
    (∀ c ∈ before.getLast?, isWord c = false) ∧ EndsWord after

/-- A text up to its first brace that opens, or all of it, and what follows. -/
structure UpToBrace (t opening tail : Text) : Prop where
  split : t = opening ++ tail
  no_brace : '\x7b' ∉ opening
  tail_eq : tail = [] ∨ ∃ more, tail = '\x7b' :: more

theorem exists_upToBrace (t : Text) : ∃ opening tail, UpToBrace t opening tail := by
  by_cases hbrace : '\x7b' ∈ t
  · obtain ⟨opening, more, rfl, hopening⟩ := List.eq_append_cons_of_mem hbrace
    exact ⟨opening, '\x7b' :: more, rfl, hopening, .inr ⟨more, rfl⟩⟩
  · exact ⟨t, [], (List.append_nil t).symm, hbrace, .inl rfl⟩

/-- The search for the word knows of what precedes a text only whether a word ends there. -/
theorem isSome_doWord?_iff {inWord : Bool} {offset : Nat} {t : Text} :
    (doWord? inWord offset t).isSome = true ↔
      ∃ before after, t = before ++ 'd' :: 'o' :: after ∧
        (before.getLast?.map isWord).getD inWord = false ∧ EndsWord after := by
  induction t generalizing inWord offset with
  | nil => simp [doWord?]
  | cons c rest ih =>
      rw [doWord?]
      split
      next hword =>
        simp only [Bool.and_eq_true, Bool.not_eq_true', beq_iff_eq, continuesWord_eq_false_iff]
          at hword
        obtain ⟨⟨⟨hstart, rfl⟩, hhead⟩, hend⟩ := hword
        obtain ⟨after, rfl⟩ := List.head?_eq_some_iff.mp hhead
        exact iff_of_true rfl ⟨[], after, rfl, hstart, hend⟩
      next hword =>
        have hlast : ∀ before : Text, ((c :: before).getLast?.map isWord).getD inWord =
            (before.getLast?.map isWord).getD (isWord c) := by
          intro before
          rw [List.getLast?_cons]
          cases before.getLast? <;> rfl
        rw [ih]
        constructor
        · rintro ⟨before, after, rfl, hstart, hend⟩
          exact ⟨c :: before, after, rfl, (hlast before).trans hstart, hend⟩
        · rintro ⟨before, after, hsplit, hstart, hend⟩
          cases before with
          | nil =>
              obtain ⟨rfl, rfl⟩ := List.cons.inj hsplit
              have hinWord : inWord = false := hstart
              simp [hinWord, continuesWord_eq_false_iff.mpr hend] at hword
          | cons d before =>
              obtain ⟨rfl, rfl⟩ := List.cons.inj hsplit
              exact ⟨before, after, rfl, (hlast before).symm.trans hstart, hend⟩

theorem holdsDo_iff {t : Text} : HoldsDo t ↔ (doWord? false 0 t).isSome = true := by
  rw [isSome_doWord?_iff]
  apply exists_congr
  intro before
  cases before.getLast? <;> simp

theorem bounds_of_doWord?_eq_some {inWord : Bool} {offset position : Nat} {t : Text}
    (h : doWord? inWord offset t = some position) :
    offset ≤ position ∧ position < offset + byteSize t := by
  induction t generalizing inWord offset with
  | nil => simp [doWord?] at h
  | cons c rest ih =>
      have hpos := c.utf8Size_pos
      rw [doWord?] at h
      rw [byteSize_cons]
      split at h
      · obtain rfl := Option.some.inj h
        omega
      · have hbounds := ih h
        omega

theorem brace?_eq_none {t : Text} (ht : '\x7b' ∉ t) (offset : Nat) : brace? offset t = none := by
  induction t generalizing offset with
  | nil => rfl
  | cons c rest ih =>
      obtain ⟨hc, hrest⟩ := List.ne_and_not_mem_of_not_mem_cons ht
      rw [brace?, if_neg (Ne.symm hc), ih hrest]

theorem brace?_append {opening : Text} (hopening : '\x7b' ∉ opening) (offset : Nat) (more : Text) :
    brace? offset (opening ++ '\x7b' :: more) = some (offset + byteSize opening) := by
  induction opening generalizing offset with
  | nil => simp [brace?]
  | cons c rest ih =>
      obtain ⟨hc, hrest⟩ := List.ne_and_not_mem_of_not_mem_cons hopening
      rw [List.cons_append, brace?, if_neg (Ne.symm hc), ih hrest, byteSize_cons, Nat.add_assoc]

namespace UpToBrace

variable {line opening tail : Text}

/-- A word before the first brace comes first. -/
theorem opener?_of_holdsDo (h : UpToBrace line opening tail) (hdo : HoldsDo opening) :
    opener? line = some .word := by
  obtain ⟨word, hword⟩ := Option.isSome_iff_exists.mp (holdsDo_iff.mp hdo)
  obtain ⟨rfl, hopening, rfl | ⟨more, rfl⟩⟩ := h
  · simp [opener?, hword, brace?_eq_none hopening]
  · have hlt := (bounds_of_doWord?_eq_some hword).2
    have hnot : ¬ byteSize opening < word := by omega
    simp [opener?, doWord?_append (by decide : isWord '\x7b' = false), hword,
      brace?_append hopening, Option.filter, hnot]

/-- Without a word before it the first brace opens the block. -/
theorem opener?_of_not_holdsDo (h : UpToBrace line opening tail) (hdo : ¬ HoldsDo opening) :
    opener? line = if tail = [] then none else some (.brace (byteSize opening)) := by
  have hnone : doWord? false 0 opening = none := by
    rw [holdsDo_iff] at hdo
    simpa using hdo
  obtain ⟨rfl, hopening, rfl | ⟨more, rfl⟩⟩ := h
  · simp [opener?, hnone, brace?_eq_none hopening]
  · rw [if_neg (List.cons_ne_nil _ more), opener?, brace?_append hopening,
      doWord?_append (by decide), hnone, Option.none_or, Nat.zero_add]
    cases hword : doWord? false (byteSize opening + Char.utf8Size '\x7b') more with
    | none => rfl
    | some word =>
        have hle := (bounds_of_doWord?_eq_some hword).1
        have hlt : byteSize opening < word := by
          have hpos := Char.utf8Size_pos '\x7b'
          omega
        simp [Option.filter, hlt]

end UpToBrace

/-! ## Blocks in braces -/

/-- A text behind some open braces up to where they balance, or up to the end when they never do,
and what follows. -/
structure Balances (depth : Nat) (inner rest : Text) : Prop where
  balanced : depth + inner.count '\x7b' = inner.count '\x7d' ∨ rest = []
  first : ∀ before after, inner = before ++ after → after ≠ [] →
    before.count '\x7d' < depth + before.count '\x7b'

theorem balances_zero_iff {inner rest : Text} : Balances 0 inner rest ↔ inner = [] := by
  constructor
  · intro h
    by_contra hne
    have hfirst := h.first [] inner rfl hne
    simp at hfirst
  · rintro rfl
    exact ⟨.inl rfl, by simp⟩

theorem balances_nil_iff {depth : Nat} (hdepth : 0 < depth) {rest : Text} :
    Balances depth [] rest ↔ rest = [] := by
  constructor
  · rintro ⟨hbalanced | rfl, -⟩
    · simp at hbalanced
      omega
    · rfl
  · rintro rfl
    exact ⟨.inr rfl, by simp⟩

/-- A character changes the number of open braces. -/
theorem balances_cons_iff {depth later : Nat} {c : Char} {inner rest : Text} (hdepth : 0 < depth)
    (hlater : depth + [c].count '\x7b' = later + [c].count '\x7d') :
    Balances depth (c :: inner) rest ↔ Balances later inner rest := by
  have hcount : ∀ t : Text, (depth + (c :: t).count '\x7b' = (c :: t).count '\x7d' ↔
        later + t.count '\x7b' = t.count '\x7d') ∧
      ((c :: t).count '\x7d' < depth + (c :: t).count '\x7b' ↔
        t.count '\x7d' < later + t.count '\x7b') := by
    intro t
    rw [← List.singleton_append, List.count_append, List.count_append]
    omega
  constructor
  · rintro ⟨hbalanced, hfirst⟩
    refine ⟨hbalanced.imp_left (hcount inner).1.mp, ?_⟩
    rintro before after rfl hafter
    exact (hcount before).2.mp (hfirst (c :: before) after rfl hafter)
  · rintro ⟨hbalanced, hfirst⟩
    refine ⟨hbalanced.imp_left (hcount inner).1.mpr, ?_⟩
    intro before after hsplit hafter
    cases before with
    | nil => simpa using hdepth
    | cons d before =>
        obtain ⟨rfl, rfl⟩ := List.cons.inj hsplit
        exact (hcount before).2.mpr (hfirst before after rfl hafter)

theorem balancedSize_eq_zero_iff {depth : Nat} {t : Text} : balancedSize depth t = 0 ↔ t = [] := by
  cases t with
  | nil => simp [balancedSize]
  | cons c t =>
      have hpos := c.utf8Size_pos
      refine iff_of_false ?_ (List.cons_ne_nil c t)
      rw [balancedSize]
      split_ifs <;> omega

/-- The count of open braces finds where they balance. -/
theorem balances_iff {depth : Nat} (hdepth : 0 < depth) {inner rest : Text} :
    Balances depth inner rest ↔ balancedSize depth (inner ++ rest) = byteSize inner := by
  induction inner generalizing depth with
  | nil => exact (balances_nil_iff hdepth).trans balancedSize_eq_zero_iff.symm
  | cons c inner ih =>
      rw [List.cons_append, balancedSize, byteSize_cons]
      split
      next hopen =>
        have hcount : depth + [c].count '\x7b' = depth + 1 + [c].count '\x7d' := by simp [hopen]
        rw [balances_cons_iff hdepth hcount, ih (by omega)]
        omega
      next hopen =>
        split
        next hclose =>
          have hcount : depth + [c].count '\x7b' = depth - 1 + [c].count '\x7d' := by
            simp [hclose]
            omega
          rw [balances_cons_iff hdepth hcount]
          split
          next hle =>
            rw [Nat.sub_eq_zero_of_le hle, balances_zero_iff, ← byteSize_eq_zero]
            omega
          next hgt =>
            rw [ih (by omega)]
            omega
        next hclose =>
          have hcount : depth + [c].count '\x7b' = depth + [c].count '\x7d' := by
            simp [hopen, hclose]
          rw [balances_cons_iff hdepth hcount, ih hdepth]
          omega

/-! ## Blocks of lines -/

/-- A text starts with the word `end` behind at most `indent` spaces and tabs.  A letter or a digit
of ASCII goes on with that word, and so does an underscore. -/
def ClosesAt (indent : Nat) (t : Text) : Prop :=
  ∃ blanks after, t = blanks ++ ("end".toList ++ after) ∧ (∀ c ∈ blanks, isInlineBlank c = true) ∧
    blanks.length ≤ indent ∧ ∀ c ∈ after.head?, (c.isAlphanum || c == '_') = false

/-- What stands above the first line that closes a block, or all there is when no line does, and
what follows. -/
structure ClosesFirst (indent : Nat) (within rest : Text) : Prop where
  closed : OpensLine within ∧ ClosesAt indent rest ∨ rest = []
  first : ∀ before after, within = before ++ after → after ≠ [] → OpensLine before →
    ¬ ClosesAt indent (after ++ rest)

theorem closes_iff {indent : Nat} {line : Text} :
    closes indent line = true ↔ ClosesAt indent line := by
  constructor
  · intro h
    obtain ⟨hend, hindent⟩ := Bool.and_eq_true_iff.mp h
    rw [startsWithEnd] at hend
    cases hafter : dropPrefix? "end" (line.dropWhile isInlineBlank) with
    | none =>
        rw [hafter] at hend
        exact absurd hend (by decide)
    | some after =>
        have hsplit : line.takeWhile isInlineBlank ++ line.dropWhile isInlineBlank = line :=
          List.takeWhile_append_dropWhile
        rw [dropPrefix?_eq_some.mp hafter] at hsplit
        refine ⟨_, after, hsplit.symm, fun c hc => List.mem_takeWhile_imp hc,
          of_decide_eq_true hindent, ?_⟩
        rw [hafter] at hend
        cases after with
        | nil => simp
        | cons c after => simpa using hend
  · rintro ⟨blanks, after, rfl, hblanks, hindent, hword⟩
    rw [closes, indentation, startsWithEnd, List.takeWhile_append_of_pos hblanks,
      List.dropWhile_append_of_pos hblanks]
    have htake : ("end".toList ++ after).takeWhile isInlineBlank = [] := rfl
    have hdrop : ("end".toList ++ after).dropWhile isInlineBlank = "end".toList ++ after := rfl
    rw [htake, hdrop, dropPrefix?_eq_some.mpr rfl, List.append_nil]
    cases after with
    | nil => simpa using hindent
    | cons c after => simpa [hindent] using hword

/-- Whether a line closes a block does not depend on the lines below it. -/
theorem closesAt_append_iff {indent : Nat} {line below : Text} (h : '\n' ∈ line ∨ below = []) :
    ClosesAt indent (line ++ below) ↔ ClosesAt indent line := by
  rcases h with hfeed | rfl
  · have hfree : ∀ blanks : Text, (∀ c ∈ blanks, isInlineBlank c = true) →
        '\n' ∉ blanks ++ "end".toList := by
      intro blanks hblanks hmem
      rcases List.mem_append.mp hmem with hmem | hmem
      · exact absurd (hblanks _ hmem) (by decide)
      · exact absurd hmem (by decide)
    have hhead : ∀ blanks after : Text, (∀ c ∈ blanks, isInlineBlank c = true) →
        line = blanks ++ "end".toList ++ after → (after ++ below).head? = after.head? := by
      rintro blanks after hblanks rfl
      cases after with
      | nil => exact absurd (by simpa using hfeed) (hfree blanks hblanks)
      | cons c after => rfl
    constructor
    · rintro ⟨blanks, after, hsplit, hblanks, hindent, hword⟩
      rw [← List.append_assoc] at hsplit
      rcases List.append_eq_append_iff.mp hsplit with ⟨more, hlead, -⟩ | ⟨more, rfl, rfl⟩
      · exact absurd (hlead ▸ List.mem_append_left more hfeed) (hfree blanks hblanks)
      · rw [hhead blanks more hblanks rfl] at hword
        exact ⟨blanks, more, by simp, hblanks, hindent, hword⟩
    · rintro ⟨blanks, after, hsplit, hblanks, hindent, hword⟩
      rw [← List.append_assoc] at hsplit
      refine ⟨blanks, after ++ below, by simp [hsplit], hblanks, hindent, ?_⟩
      rwa [hhead blanks after hblanks hsplit]
  · rw [List.append_nil]

section Lines

variable {indent : Nat} {body ends after : Text} (hbody : IsBody body) (hends : Ends ends after)
include hbody hends

/-- A line starts within another only where that one does. -/
theorem eq_nil_of_opensLine {before behind : Text} (hsplit : body ++ ends = before ++ behind)
    (hbehind : behind ≠ []) (hbefore : OpensLine before) : before = [] := by
  have hfree := hends.no_feed_of_append hbody.1 hsplit hbehind
  rcases hbefore with rfl | ⟨more, rfl⟩
  · rfl
  · simp at hfree

/-- A line that closes no block is passed over. -/
theorem closesFirst_line_iff {within rest : Text}
    (hcloses : ¬ ClosesAt indent (body ++ ends ++ after)) (hafter : after = within ++ rest) :
    ClosesFirst indent (body ++ ends ++ within) rest ↔ ClosesFirst indent within rest := by
  constructor
  · rintro ⟨hclosed, hfirst⟩
    refine ⟨hclosed.imp_left (And.imp_left OpensLine.of_append), ?_⟩
    rintro before behind rfl hbehind hbefore
    apply hfirst (body ++ ends ++ before) behind (by simp) hbehind
    exact hends.opensLine_append (by simp [hafter, hbehind]) hbefore body
  · rintro ⟨hclosed, hfirst⟩
    refine ⟨?_, ?_⟩
    · rcases hclosed with ⟨hwithin, hrest⟩ | hrest
      · by_cases hnil : after = []
        · exact .inr (List.append_eq_nil_iff.mp (hafter.symm.trans hnil)).2
        · exact .inl ⟨hends.opensLine_append hnil hwithin body, hrest⟩
      · exact .inr hrest
    · intro before behind hsplit hbehind hbefore
      rcases List.append_eq_append_iff.mp hsplit with ⟨more, rfl, rfl⟩ | ⟨more, hline, rfl⟩
      · exact hfirst more behind rfl hbehind hbefore.of_append
      · by_cases hmore : more = []
        · subst hmore
          exact hfirst [] within rfl hbehind (.inl rfl)
        · obtain rfl := eq_nil_of_opensLine hbody hends hline hmore hbefore
          rw [List.nil_append] at hline
          rwa [← hline, List.append_assoc, ← hafter]

end Lines

theorem closingStart_line {indent start : Nat} {body ends after : Text} (hbody : IsBody body)
    (hends : Ends ends after) (hne : body ++ ends ≠ []) :
    closingStart indent start (body ++ ends ++ after) =
      if closes indent (body ++ ends) then start
      else closingStart indent (start + byteSize (body ++ ends)) after := by
  rw [closingStart, linesFrom_of_ends hbody.1 hends hne, List.find?_cons]
  cases closes indent (body ++ ends) with
  | true => rfl
  | false => rw [byteSize_append _ after, ← Nat.add_assoc, closingStart, if_neg (by decide)]

/-- The search over the lines finds the first one that closes. -/
theorem closesFirst_iff {indent start : Nat} {t within rest : Text} (hsplit : t = within ++ rest) :
    ClosesFirst indent within rest ↔
      closingStart indent start t = start + byteSize within := by
  induction t using lineInduction generalizing start within with
  | nil =>
      obtain ⟨rfl, rfl⟩ := List.append_eq_nil_iff.mp hsplit.symm
      refine iff_of_true ⟨.inr rfl, by simp⟩ ?_
      rw [closingStart, linesFrom]
      rfl
  | line body ends after hbody hends hne ih =>
      have hfeed : '\n' ∈ body ++ ends ∨ after = [] := by
        rcases hends with ⟨returns, rfl, -⟩ | ⟨-, rfl⟩
        · exact .inl (by simp)
        · exact .inr rfl
      have hcloses : closes indent (body ++ ends) = true ↔
          ClosesAt indent (body ++ ends ++ after) :=
        closes_iff.trans (closesAt_append_iff hfeed).symm
      rw [closingStart_line hbody hends hne]
      split
      next hclosing =>
        rw [hcloses, hsplit] at hclosing
        constructor
        · rintro ⟨-, hfirst⟩
          by_cases hwithin : within = []
          · rw [hwithin]
            rfl
          · exact absurd hclosing (hfirst [] within rfl hwithin (.inl rfl))
        · intro hstart
          obtain rfl : within = [] := byteSize_eq_zero.mp (by omega)
          exact ⟨.inl ⟨.inl rfl, hclosing⟩, by simp⟩
      next hclosing =>
        rw [hcloses] at hclosing
        obtain ⟨closing, -, -, hclosing'⟩ :=
          exists_closingStart_eq indent (start + byteSize (body ++ ends)) after
        by_cases hsize : byteSize (body ++ ends) ≤ byteSize within
        · obtain ⟨later, rfl, hafter⟩ := exists_append_of_byteSize_le hsplit hsize
          rw [closesFirst_line_iff hbody hends hclosing hafter, ih hafter, byteSize_append _ later,
            Nat.add_assoc]
        · obtain ⟨more, hline, rfl⟩ := exists_append_of_byteSize_le hsplit.symm (by omega)
          have hmore : more ≠ [] := by
            rintro rfl
            rw [hline, List.append_nil] at hsize
            exact hsize (Nat.le_refl _)
          refine iff_of_false ?_ (by omega)
          rintro ⟨⟨hwithin, hrest⟩ | hrest, -⟩
          · obtain rfl := eq_nil_of_opensLine hbody hends hline hmore hwithin
            rw [hsplit] at hclosing
            exact hclosing hrest
          · exact hmore (List.append_eq_nil_iff.mp hrest).1

/-! ## Blocks -/

/-- What the block of a header takes up: the content up to the block, the block, and what
follows. -/
inductive Header.HasBlock (header : Header) : (lead inside rest : Text) → Prop
  /-- A brace with no word `do` before it opens the block. -/
  | braces {opening more inner rest : Text}
      (hopening : UpToBrace header.behind opening ('\x7b' :: more)) (hdo : ¬ HoldsDo opening)
      (hsplit : more ++ header.below = inner ++ rest) (hbalances : Balances 1 inner rest) :
      HasBlock header (header.lead ++ opening) ('\x7b' :: inner) rest
  /-- The word `do` opens the block, and no brace comes before it.  The text below begins with the
  line feed of the header's own line, so no line closes the block there. -/
  | lines {opening tail within rest : Text} (hopening : UpToBrace header.behind opening tail)
      (hdo : HoldsDo opening) (hsplit : header.below = within ++ rest)
      (hcloses : ClosesFirst (indentation header.line) within rest) :
      HasBlock header header.lead (header.behind ++ within) rest

/-- A specification block of a content, with what precedes it and what follows. -/
def IsBlock (content lead inside rest : Text) : Prop :=
  ∃ header : Header, header.StandsIn content ∧ header.HasBlock lead inside rest

theorem IsBlock.split {content lead inside rest : Text} (h : IsBlock content lead inside rest) :
    content = lead ++ inside ++ rest := by
  obtain ⟨header, hheader, hblock⟩ := h
  have hcontent := hheader.content_eq
  cases hblock with
  | braces hopening hdo hsplit hbalances => simp [hcontent, hopening.split, hsplit]
  | lines hopening hdo hsplit hcloses => simp [hcontent, hsplit]

/-- The brace that opens a block is the first one that is counted. -/
theorem Opener.block_brace (lead opening more below : Text) :
    (Opener.brace (byteSize opening)).block lead (opening ++ '\x7b' :: more) below =
      ⟨byteSize (lead ++ opening), byteSize (lead ++ opening) + byteSize ['\x7b'] +
        balancedSize 1 (more ++ below)⟩ := by
  rw [Opener.block, List.append_assoc, dropBytes_append, List.cons_append, balancedSize,
    if_pos rfl, byteSize_append, Nat.add_assoc _ (byteSize ['\x7b'])]
  rfl

/-- A header has the block that is described. -/
theorem block?_header_eq_some_iff {header : Header} {content : Text} (h : header.StandsIn content)
    {range : ByteRange} :
    block? content (byteSize header.lead) = some range ↔
      ∃ lead inside rest, header.HasBlock lead inside rest ∧
        range = ⟨byteSize lead, byteSize (lead ++ inside)⟩ := by
  have hcontent := h.content_eq
  obtain ⟨⟨-, habove, hfeed, hbelow⟩, -, -⟩ := h
  have hbefore : '\n' ∉ header.before ++ constructor :=
    fun hmem => hfeed (List.mem_append_left _ hmem)
  have hlast : lastLine header.lead ++ header.behind = header.line := by
    rw [Header.lead, List.append_assoc, habove.lastLine_append hbefore, Header.line]
  have hbehind : '\n' ∉ header.behind := fun hmem => hfeed (List.mem_append_right _ hmem)
  rw [hcontent, block?_append hbehind hbelow]
  constructor
  · intro hblock
    obtain ⟨opening, tail, hopening⟩ := exists_upToBrace header.behind
    by_cases hdo : HoldsDo opening
    · rw [hopening.opener?_of_holdsDo hdo, Option.map_some, Opener.block_word, hlast] at hblock
      obtain rfl := Option.some.inj hblock
      obtain ⟨within, rest, hwithin, hclosing⟩ := exists_closingStart_eq
        (indentation header.line) (byteSize (header.lead ++ header.behind)) header.below
      refine ⟨_, _, rest, .lines hopening hdo hwithin ((closesFirst_iff hwithin).mpr hclosing), ?_⟩
      rw [hclosing, ← byteSize_append, List.append_assoc]
    · rw [hopening.opener?_of_not_holdsDo hdo] at hblock
      obtain ⟨hbehind', -, rfl | ⟨more, rfl⟩⟩ := id hopening
      · simp at hblock
      · rw [if_neg (List.cons_ne_nil _ more), Option.map_some, hbehind', Opener.block_brace]
          at hblock
        obtain rfl := Option.some.inj hblock
        obtain ⟨inner, rest, hinner, hsize⟩ := isBoundary_balancedSize 1 (more ++ header.below)
        have hbalances : Balances 1 inner rest := by
          rw [balances_iff (by decide), ← hinner, hsize]
        refine ⟨_, _, rest, .braces hopening hdo hinner hbalances, ?_⟩
        rw [hsize, List.append_cons, byteSize_append _ inner, byteSize_append _ ['\x7b']]
  · rintro ⟨lead, inside, rest, hblock, rfl⟩
    cases hblock with
    | @braces opening more inner rest hopening hdo hinner hbalances =>
        rw [hopening.opener?_of_not_holdsDo hdo, if_neg (List.cons_ne_nil _ more), Option.map_some,
          hopening.split, Opener.block_brace, hinner, (balances_iff (by decide)).mp hbalances,
          List.append_cons, byteSize_append _ inner, byteSize_append _ ['\x7b']]
    | @lines opening tail within rest hopening hdo hwithin hcloses =>
        rw [hopening.opener?_of_holdsDo hdo, Option.map_some, Opener.block_word, hlast,
          (closesFirst_iff hwithin).mp hcloses, ← byteSize_append, List.append_assoc]

/-- The blocks of a content are the pieces that are described as such. -/
theorem mem_blocks_iff {content : Text} {range : ByteRange} :
    range ∈ blocks content ↔ ∃ lead inside rest, IsBlock content lead inside rest ∧
      range = ⟨byteSize lead, byteSize (lead ++ inside)⟩ := by
  rw [blocks, List.mem_filterMap]
  constructor
  · rintro ⟨position, hposition, hblock⟩
    obtain ⟨header, hheader, rfl⟩ := mem_headers_iff.mp hposition
    obtain ⟨lead, inside, rest, hhas, hrange⟩ := (block?_header_eq_some_iff hheader).mp hblock
    exact ⟨lead, inside, rest, ⟨header, hheader, hhas⟩, hrange⟩
  · rintro ⟨lead, inside, rest, ⟨header, hheader, hhas⟩, hrange⟩
    refine ⟨byteSize header.lead, mem_headers_iff.mpr ⟨header, hheader, rfl⟩, ?_⟩
    exact (block?_header_eq_some_iff hheader).mpr ⟨lead, inside, rest, hhas, hrange⟩

end Specification

end RequireLint
