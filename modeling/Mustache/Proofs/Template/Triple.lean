import Mustache.Proofs.Template.Markers
import Mustache.Proofs.Template.Origin

/-!
# Fields in three braces

A field whose markup is kept may be written in three braces or behind an ampersand.  Both tags start
with two braces, and a scan that meets them has passed what stands before them in the same way:
text that starts with a character that is neither blank nor a closing brace does not tell what comes
behind that character (`Passes.scan_append_cons`).  And the two tags are one field, whatever stands on
their line (`tokenize_triple`).
-/

namespace Mustache

open Cursor

/-! ### Definitions -/

/-- A field with its markup kept, in three braces. -/
def tripleTag (name : Text) : Text := ['{', '{', '{'] ++ name ++ ['}', '}', '}']

/-- A field with its markup kept, behind an ampersand. -/
def ampersandTag (name : Text) : Text := ['{', '{', '&'] ++ name ++ ['}', '}']

/-- The tag in a text that goes on: something that is not blank stands behind what stands behind
it. -/
def Tag.followed (t : Tag) : Tag := t.extend ['.']

variable {pair : Delimiter} {s n : Text} {t : Tag} {c d : Cursor} {stops : List Stop} {x : Char}
  {tokens : List Token}

/-! ### Text that goes on behind a tag -/

/-- A tag is the first one in a text that goes on, unless a closing brace comes right behind it. -/
theorem cutTag_append_cons (h : cutTag pair s = .tag t) (hx : x ≠ '}') (b : Text) :
    cutTag pair (s ++ x :: b) = .tag (t.extend (x :: b)) := by
  by_cases ha : t.after = []
  · obtain ⟨rfl, hbefore, hcontent, htriple⟩ := cutTag_eq_tag_iff.1 h
    refine cutTag_eq_tag_iff.2 ⟨List.append_assoc _ t.after (x :: b), hbefore, hcontent, ?_⟩
    have hhead : (t.brace ++ (t.after ++ x :: b)).head? = some '}' ↔
        (t.brace ++ t.after).head? = some '}' := by
      rw [ha, Tag.brace]
      split <;> simp [hx]
    show t.triple = true ↔ pair.opening = ['{', '{'] ∧ t.content.head? = some '{' ∧
      (t.brace ++ (t.after ++ x :: b)).head? = some '}'
    rw [hhead]
    exact htriple
  · exact cutTag_append_right h ha (x :: b)

namespace Tag

section Followed

variable (hx : Text.isBlank x = false)
include hx

/-- What comes behind the character has no say in the tag's line, nor which one it is. -/
theorem line_extend_cons (t : Tag) (b : Text) (lineStart : Bool) :
    (t.extend (x :: b)).line lineStart = t.followed.line lineStart :=
  line_append_cons hx (by decide) t.before t.content t.after b [] t.triple lineStart

theorem elided_extend_cons (t : Tag) (b : Text) (lineStart : Bool) :
    (t.extend (x :: b)).elided lineStart = t.followed.elided lineStart := by
  unfold elided
  rw [line_extend_cons hx]
  rfl

theorem kept_extend_cons (t : Tag) (b : Text) (lineStart : Bool) :
    (t.extend (x :: b)).kept lineStart = t.followed.kept lineStart := by
  unfold kept
  rw [elided_extend_cons hx]
  rfl

theorem endsLine_extend_cons (t : Tag) (b : Text) (lineStart : Bool) :
    (t.extend (x :: b)).endsLine lineStart = t.followed.endsLine lineStart := by
  have hline := line_extend_cons hx t b lineStart
  have hbreak : (Text.dropBreak? (t.extend (x :: b)).after).isSome =
      (Text.dropBreak? t.followed.after).isSome := congrArg LineInfo.breakAfter hline
  unfold endsLine
  rw [elided_extend_cons hx, hbreak]

end Followed

/-- Whether the text goes on makes a difference to a tag only at the end of the text. -/
theorem elided_followed (ha : t.after ≠ []) (lineStart : Bool) :
    t.followed.elided lineStart = t.elided lineStart := by
  have hempty : (t.after ++ ['.']).isEmpty = t.after.isEmpty := by
    cases h : t.after with
    | nil => exact absurd h ha
    | cons y u => rfl
  unfold elided
  rw [standalone_line, standalone_line]
  show (t.isStructural && ((t.line lineStart).firstOnLine && ((t.after ++ ['.']).isEmpty ||
    (Text.dropBreak? (t.after ++ ['.'])).isSome))) = _
  rw [hempty, Text.dropBreak?_append_cons (by decide), Option.isSome_map]

theorem endsLine_followed (ha : t.after ≠ []) (lineStart : Bool) :
    t.followed.endsLine lineStart = t.endsLine lineStart := by
  unfold endsLine
  rw [elided_followed ha]
  show (_ || (Text.dropBreak? (t.after ++ ['.'])).isSome) = _
  rw [Text.dropBreak?_append_cons (by decide), Option.isSome_map]

theorem rest_eq_remainder (t : Tag) (lineStart : Bool) :
    t.rest lineStart = remainder (t.elided lineStart) t.after := rfl

end Tag

theorem remainder_append_cons (hx : Text.isBlank x = false) (elided : Bool) (u b : Text) :
    remainder elided (u ++ x :: b) = remainder elided u ++ x :: b := by
  unfold remainder
  rw [Text.dropBreak?_append_cons (Text.isBreak_of_not_blank hx)]
  split
  · cases Text.dropBreak? u <;> rfl
  · rfl

theorem remainder_nil (elided : Bool) : remainder elided [] = [] := by
  cases elided <;> rfl

/-- What is left to be scanned goes on as the text does. -/
theorem Tag.rest_extend_cons (hx : Text.isBlank x = false) (t : Tag) (b : Text)
    (lineStart : Bool) : (t.extend (x :: b)).rest lineStart = t.rest lineStart ++ x :: b := by
  rw [rest_eq_remainder, rest_eq_remainder, elided_extend_cons hx]
  show remainder _ (t.after ++ x :: b) = _
  rw [remainder_append_cons hx]
  by_cases ha : t.after = []
  · rw [ha, remainder_nil, remainder_nil]
  · rw [elided_followed ha]

/-! ### Text that goes on behind a passage -/

/-- **A scan of a text that goes on** passes the tags that it passes if the text ends, and leaves the
same tokens whatever the text goes on with.  At the end of the text it may see a line end where it
sees none if the text goes on, so the flag there is not that of the passage. -/
theorem Passes.scan_append_cons (h : Passes c stops d) (lineStart : Bool)
    (hstart : c.rest ≠ [] → lineStart = c.lineStart) :
    ∃ front lineStart', ∀ x b, Text.isBlank x = false → x ≠ '}' →
      (scan ⟨c.rest ++ x :: b, lineStart, c.delimiter⟩).outcome =
        (scan ⟨d.rest ++ x :: b, lineStart', d.delimiter⟩).outcome.map (front ++ ·) := by
  induction h generalizing lineStart with
  | refl c => exact ⟨[], lineStart, fun x b _ _ => (Outcome.map_id _).symm⟩
  | @step c d t m stops cut means later ih =>
    have hrest : c.rest ≠ [] := by
      intro hnil
      have hlen := length_after_lt cut
      rw [hnil, List.length_nil] at hlen
      omega
    obtain rfl := hstart hrest
    have hnext : (c.past t m).rest ≠ [] →
        t.followed.endsLine c.lineStart = (c.past t m).lineStart := by
      intro hne
      refine Tag.endsLine_followed (fun ha => hne ?_) c.lineStart
      show t.rest c.lineStart = []
      rw [Tag.rest_eq_remainder, ha, remainder_nil]
    obtain ⟨front, lineStart', hscan⟩ := ih (t.followed.endsLine c.lineStart) hnext
    let passed := textTokens (t.followed.kept c.lineStart) c.lineStart ++
      m.symbol?.toList.map (⟨·, t.followed.line c.lineStart⟩)
    refine ⟨passed ++ front, lineStart', fun x b hx hb => ?_⟩
    have hpast : past ⟨c.rest ++ x :: b, c.lineStart, c.delimiter⟩ (t.extend (x :: b)) m =
        ⟨(c.past t m).rest ++ x :: b, t.followed.endsLine c.lineStart,
          (c.past t m).delimiter⟩ := by
      simp only [past, Tag.rest_extend_cons hx, Tag.endsLine_extend_cons hx]
    have htokens : tagTokens ⟨c.rest ++ x :: b, c.lineStart, c.delimiter⟩ (t.extend (x :: b)) m =
        passed := by
      simp only [tagTokens, Tag.kept_extend_cons hx, Tag.line_extend_cons hx, passed]
    rw [outcome_scan_of_tag (c := ⟨c.rest ++ x :: b, c.lineStart, c.delimiter⟩)
      (cutTag_append_cons cut hb b)]
    show t.meaning.bind _ = _
    rw [means, Except.bind, hpast, htokens, hscan x b hx hb, Outcome.map_map]
    simp only [List.append_assoc]

/-! ### Two ways to write a field -/

/-- A text without two opening braces, and with none at its end, is all that stands before a tag. -/
theorem clear_opening (hs : cutTag .braces s = .plain) (hlast : s.getLast? ≠ some '{') :
    Text.Clear Delimiter.braces.opening s := by
  rcases List.eq_nil_or_concat' s with rfl | ⟨y, c, rfl⟩
  · exact Text.clear_nil _
  · rw [cutTag_eq_plain_iff] at hs
    have hc : c ∉ Delimiter.braces.opening := by
      intro hc
      obtain rfl : c = '{' := by simpa [Delimiter.braces] using hc
      simp at hlast
    exact Text.clear_concat hc fun hy => hs (hy.trans (List.prefix_append y [c]).isInfix)

section Field

variable (hs : cutTag .braces s = .plain) (hlast : s.getLast? ≠ some '{') (hn : '}' ∉ n)
include hs hlast hn

/-- A content that starts with another character than a closing brace ends where the braces do. -/
theorem cutTag_field (hx : x ≠ '}') (b : Text) (triple : Bool)
    (htriple : triple = true ↔ x = '{' ∧ ((if triple then ['}'] else []) ++ b).head? = some '}') :
    cutTag .braces (s ++ ['{', '{'] ++ (x :: n) ++ ['}', '}'] ++
      (if triple then ['}'] else []) ++ b) = .tag ⟨s, x :: n, b, triple⟩ := by
  refine cutTag_eq_tag_iff.2 ⟨rfl, clear_opening hs hlast, ?_, ?_⟩
  · refine Text.clear_of_head? Delimiter.braces.closing_ne_nil fun c hc => ?_
    obtain rfl : '}' = c := by simpa [Delimiter.braces] using hc
    simp [hn, Ne.symm hx]
  · simpa [Delimiter.braces, Tag.brace] using htriple

/-- **One field**, with the same line around it and the same text left behind it. -/
theorem scan_triple (b : Text) (lineStart : Bool) :
    (scan ⟨s ++ tripleTag n ++ b, lineStart, .braces⟩).outcome =
      (scan ⟨s ++ ampersandTag n ++ b, lineStart, .braces⟩).outcome := by
  have hbraces : cutTag .braces (s ++ tripleTag n ++ b) = .tag ⟨s, '{' :: n, b, true⟩ := by
    simpa [tripleTag] using cutTag_field hs hlast hn (by decide : '{' ≠ '}') b true (by simp)
  have hamp : cutTag .braces (s ++ ampersandTag n ++ b) = .tag ⟨s, '&' :: n, b, false⟩ := by
    simpa [ampersandTag] using cutTag_field hs hlast hn (by decide : '&' ≠ '}') b false (by simp)
  have hmeans : (Tag.mk s ('{' :: n) b true).meaning =
      .ok (.symbol (.field (Text.strip n) false)) := by
    have hend : ¬ ['}'] <:+ n := fun h => hn (h.subset List.mem_cons_self)
    show Except.ok (Meaning.symbol (.field (Text.strip (Text.dropEnding ['}'] n)) false)) = _
    rw [Text.dropEnding_of_not_suffix hend]
  rw [outcome_scan_of_tag (c := ⟨_, lineStart, .braces⟩) hbraces,
    outcome_scan_of_tag (c := ⟨_, lineStart, .braces⟩) hamp, hmeans]
  rfl

end Field

/-- **Three braces are an ampersand.**  Behind a text that can be scanned, leaves double braces in
force and does not end with an opening brace, a tag in three braces and the same with an ampersand
give the same tokens or the same fault, whatever comes behind them. -/
theorem tokenize_triple {a : Text} (ha : a.getLast? ≠ some '{')
    (h : (tokenize a).outcome = .ok tokens) (hp : lastPair { rest := a } = .braces)
    (hn : '}' ∉ n) (b : Text) :
    (tokenize (a ++ tripleTag n ++ b)).outcome = (tokenize (a ++ ampersandTag n ++ b)).outcome := by
  obtain ⟨stops, ⟨rest, ls, pair⟩, hpass, hd, -⟩ := outcome_scan_eq_ok_iff.1 h
  obtain rfl : pair = .braces := (hpass.lastPair_eq hd).symm.trans hp
  obtain ⟨front, lineStart, hscan⟩ := hpass.scan_append_cons true fun _ => rfl
  have hlast : rest.getLast? ≠ some '{' := by
    intro hrest
    obtain ⟨u, hu⟩ : rest <:+ a := hpass.rest_suffix
    have hne : rest ≠ [] := by
      rintro rfl
      cases hrest
    rw [← hu, List.getLast?_append_of_ne_nil _ hne] at ha
    exact ha hrest
  -- both tags start with a brace, so the scan comes to them in one way
  have hbraces : (tokenize (a ++ tripleTag n ++ b)).outcome =
      (scan ⟨rest ++ tripleTag n ++ b, lineStart, .braces⟩).outcome.map (front ++ ·) := by
    simpa [tokenize, tripleTag] using
      hscan '{' (['{', '{'] ++ n ++ ['}', '}', '}'] ++ b) (by decide) (by decide)
  have hamp : (tokenize (a ++ ampersandTag n ++ b)).outcome =
      (scan ⟨rest ++ ampersandTag n ++ b, lineStart, .braces⟩).outcome.map (front ++ ·) := by
    simpa [tokenize, ampersandTag] using
      hscan '{' (['{', '&'] ++ n ++ ['}', '}'] ++ b) (by decide) (by decide)
  rw [hbraces, hamp, scan_triple hd hlast hn b lineStart]

/-- A comment that has its line for itself as long as nothing comes behind it, a name with a brace and
blanks, and behind the field one brace more and a tag without an end. -/
theorem tokenize_triple_unclosed :
    ("a\n {{!c}}".toList).getLast? ≠ some '{' ∧
      (tokenize "a\n {{!c}}".toList).outcome = .ok
        [{ symbol := .text "a\n".toList, line := { firstOnLine := true } },
          { symbol := .comment "c".toList,
            line := { preceding := " ".toList, firstOnLine := true, lastOnLine := true,
                      atEnd := true } }] ∧
      lastPair { rest := "a\n {{!c}}".toList } = .braces ∧ '}' ∉ [' ', '{', 'x', ' '] ∧
      (tokenize ("a\n {{!c}}".toList ++ tripleTag [' ', '{', 'x', ' '] ++
        ['}', '\n', '{', '{', '#'])).outcome =
        (tokenize ("a\n {{!c}}".toList ++ ampersandTag [' ', '{', 'x', ' '] ++
          ['}', '\n', '{', '{', '#'])).outcome := by
  have h : (tokenize "a\n {{!c}}".toList).outcome = .ok
      [{ symbol := .text "a\n".toList, line := { firstOnLine := true } },
        { symbol := .comment "c".toList,
          line := { preceding := " ".toList, firstOnLine := true, lastOnLine := true,
                    atEnd := true } }] := by decide +kernel
  have hp : lastPair { rest := "a\n {{!c}}".toList } = .braces := by decide +kernel
  exact ⟨by decide, h, hp, by decide, tokenize_triple (by decide) h hp (by decide) _⟩

end Mustache
