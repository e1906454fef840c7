import Mustache.Proofs.Template.Tag
import Mustache.Template.Scan

/-!
# Passages of a scan

A passage leads from one cursor to a later one and lists the tags that the scan meets on its way.
What a scan gives from the first cursor is what the tags leave behind, followed by what it gives from
the last one (`Passes.outcome_scan`); so the tokens of a template are settled by one passage over all
its tags (`outcome_scan_eq_ok_iff`).  Text that comes behind whole lines does not change a passage
over those lines (`Passes.append`).
-/

namespace Mustache

open Cursor

/-! ### Definitions -/

/-- A tag that a scan meets: where the scan stands, the tag, and what it means. -/
structure Stop where
  cursor : Cursor
  tag : Tag
  meaning : Meaning

/-- The tokens that the tag leaves behind. -/
def Stop.tokens (s : Stop) : List Token := s.cursor.tagTokens s.tag s.meaning

/-- The same stop in a template with more text at its end. -/
def Stop.extend (s : Stop) (b : Text) : Stop :=
  ⟨{ s.cursor with rest := s.cursor.rest ++ b }, s.tag.extend b, s.meaning⟩

/-- The markers in force where a scan ends. -/
def Cursor.lastPair (c : Cursor) : Delimiter :=
  match h : cutTag c.delimiter c.rest with
  | .tag t =>
    match t.meaning with
    | .ok m =>
      have := length_past_lt m h
      lastPair (c.past t m)
    | .error _ => c.delimiter
  | _ => c.delimiter
termination_by c.rest.length

/-- The tokens of what is left when no tag is left. -/
def Cursor.endTokens (c : Cursor) : List Token := if c.rest = [] then [] else [c.lastToken]

/-- The text that is left is whole lines, and a line starts if none is left. -/
structure Cursor.AtLines (c : Cursor) : Prop where
  whole : Text.WholeLines c.rest
  starts : c.rest = [] → c.lineStart = true

/-- A scan that stands at `c` meets the tags `stops` and then stands at `d`. -/
inductive Passes : Cursor → List Stop → Cursor → Prop
  | refl (c : Cursor) : Passes c [] c
  | step {c d : Cursor} {t : Tag} {m : Meaning} {stops : List Stop}
      (cut : cutTag c.delimiter c.rest = .tag t) (means : t.meaning = .ok m)
      (later : Passes (c.past t m) stops d) : Passes c (⟨c, t, m⟩ :: stops) d

/-- The tokens of a text: one, or none if the text is empty. -/
def IsTextOf (s : Text) (ts : List Token) : Prop :=
  s = [] ∧ ts = [] ∨ ∃ line, ts = [⟨.text s, line⟩]

/-- What two scans give, one of them with the text `s` in front: faults of one kind, or tokens that
differ in the text at their front. -/
inductive Fronted (s : Text) : Except Error (List Token) → Except Error (List Token) → Prop
  | error {e f : Error} (kind : e.kind = f.kind) : Fronted s (.error e) (.error f)
  | ok {k : Text} {us vs : List Token} (long : IsTextOf (s ++ k) us) (short : IsTextOf k vs)
      (back : List Token) : Fronted s (.ok (us ++ back)) (.ok (vs ++ back))

variable {c d : Cursor} {stops : List Stop} {tokens : List Token}

/-! ### One step of the scan -/

theorem outcome_scan_of_plain (h : cutTag c.delimiter c.rest = .plain) :
    c.scan.outcome = .ok c.endTokens := by
  rw [scan]
  split
  · rfl
  · next h' => simp [h] at h'
  · next h' => simp [h] at h'

theorem outcome_scan_of_unclosed (h : cutTag c.delimiter c.rest = .unclosed) :
    c.scan.outcome = .error (.unclosedTag c.rest) := by
  rw [scan]
  split
  · next h' => simp [h] at h'
  · rfl
  · next h' => simp [h] at h'

theorem outcome_scan_of_tag {t : Tag} (h : cutTag c.delimiter c.rest = .tag t) :
    c.scan.outcome = t.meaning.bind fun m =>
      (c.past t m).scan.outcome.map (c.tagTokens t m ++ ·) := by
  rw [scan]
  split
  · next h' => simp [h] at h'
  · next h' => simp [h] at h'
  · next t' h' =>
    obtain rfl : t = t' := by simpa [h] using h'
    rw [Traced.outcome_bind, Traced.outcome_ofExcept]
    cases t.meaning with
    | error e => rfl
    | ok m =>
      simp only [Except.bind]
      split <;>
      · simp only [Traced.outcome_bind, Traced.outcome_tell, Traced.outcome_pure]
        cases (c.past t m).scan.outcome <;> rfl

/-! ### Passages -/

/-- **A scan and its passages**: it gives what the tags of the passage leave behind, and then what
the scan gives from where the passage ends. -/
theorem Passes.outcome_scan (h : Passes c stops d) :
    c.scan.outcome = d.scan.outcome.map (stops.flatMap Stop.tokens ++ ·) := by
  induction h with
  | refl c => cases hc : c.scan.outcome <;> simp [Except.map]
  | step cut means later ih =>
    rw [outcome_scan_of_tag cut, means, Except.bind, ih]
    rename_i d _ _ _
    cases d.scan.outcome <;> simp [Except.map, Stop.tokens]

/-- The markers in force at the end of a passage over all tags are those in force at the end of the
scan. -/
theorem Passes.lastPair_eq (h : Passes c stops d) (hd : cutTag d.delimiter d.rest = .plain) :
    c.lastPair = d.delimiter := by
  induction h with
  | refl c =>
    rw [lastPair]
    split
    · next h' => simp [hd] at h'
    · rfl
  | @step c d t m stops cut means later ih =>
    rw [← ih hd, lastPair]
    split
    · next t' h' =>
      obtain rfl : t = t' := by simpa [cut] using h'
      rw [means]
    · next h' => exact absurd cut (h' t)

/-- Every scan that gives tokens passes all tags, and stands in text without a tag then. -/
theorem outcome_scan_eq_ok_iff : c.scan.outcome = .ok tokens ↔
    ∃ stops d, Passes c stops d ∧ cutTag d.delimiter d.rest = .plain ∧
      tokens = stops.flatMap Stop.tokens ++ d.endTokens := by
  constructor
  · intro h
    induction hn : c.rest.length using Nat.strong_induction_on generalizing c tokens with
    | h n ih =>
      cases hc : cutTag c.delimiter c.rest with
      | plain =>
        rw [outcome_scan_of_plain hc] at h
        cases h
        exact ⟨[], c, .refl c, hc, rfl⟩
      | unclosed => simp [outcome_scan_of_unclosed hc] at h
      | tag t =>
        rw [outcome_scan_of_tag hc] at h
        obtain ⟨m, hm, h⟩ := Outcome.bind_eq_ok_iff.1 h
        obtain ⟨later, hl, rfl⟩ := Outcome.map_eq_ok_iff.1 h
        obtain ⟨stops, d, hp, hd, rfl⟩ := ih _ (hn ▸ length_past_lt m hc) hl rfl
        exact ⟨⟨c, t, m⟩ :: stops, d, .step hc hm hp, hd, by simp [Stop.tokens]⟩
  · rintro ⟨stops, d, hp, hd, rfl⟩
    rw [hp.outcome_scan, outcome_scan_of_plain hd]
    rfl

/-- Only pairs free of blanks come into force. -/
theorem Passes.solid (h : Passes c stops d) (hc : c.delimiter.Solid) : d.delimiter.Solid := by
  induction h with
  | refl c => exact hc
  | @step c d t m stops cut means later ih =>
    apply ih
    show (m.change?.getD c.delimiter).Solid
    cases hm : m.change? with
    | none => exact hc
    | some pair => exact Tag.solid_of_change? means hm

/-! ### More text at the end -/

/-- A tag of whole lines leaves whole lines to be scanned. -/
theorem atLines_past {t : Tag} (m : Meaning) (h : ∃ y, t.after = y ++ ['\n']) :
    (c.past t m).AtLines := by
  constructor
  · refine Text.WholeLines.of_append (s := t.ending c.lineStart) ?_
    rw [show (c.past t m).rest = t.rest c.lineStart from rfl, Tag.ending_append_rest]
    exact Text.wholeLines_iff.2 (.inr h)
  · intro hr
    have hr : t.rest c.lineStart = [] := hr
    show (t.elided c.lineStart || _) = true
    cases he : t.elided c.lineStart with
    | true => rfl
    | false =>
      -- nothing goes, so the text behind the tag is empty
      obtain ⟨y, hy⟩ := h
      simp [Tag.rest, he, hy] at hr

theorem tokens_extend {t : Tag} (m : Meaning) (b : Text) (h : ∃ y, t.after = y ++ ['\n']) :
    (Stop.extend ⟨c, t, m⟩ b).tokens = (Stop.mk c t m).tokens := by
  show textTokens ((t.extend b).kept c.lineStart) c.lineStart ++
    m.symbol?.toList.map (⟨·, (t.extend b).line c.lineStart⟩) = _
  rw [Tag.kept_extend t b _ h, Tag.line_extend t b _ h]
  rfl

theorem past_extend {t : Tag} (m : Meaning) (b : Text) (h : ∃ y, t.after = y ++ ['\n']) :
    ({ c with rest := c.rest ++ b }).past (t.extend b) m =
      { c.past t m with rest := (c.past t m).rest ++ b } := by
  simp only [past, Tag.rest_extend t b _ h, Tag.endsLine_extend t b _ h]

/-- **Text behind whole lines** changes no passage over them. -/
theorem Passes.append (h : Passes c stops d) (hs : c.delimiter.Solid) (hl : c.AtLines) (b : Text) :
    Passes { c with rest := c.rest ++ b } (stops.map (·.extend b)) { d with rest := d.rest ++ b } ∧
      (stops.map (·.extend b)).flatMap Stop.tokens = stops.flatMap Stop.tokens ∧ d.AtLines := by
  induction h with
  | refl c => exact ⟨.refl _, rfl, hl⟩
  | @step c d t m stops cut means later ih =>
    have ha := wholeLines_after cut hs.newline_not_mem_closing hl.whole
    obtain ⟨h1, h2, h3⟩ := ih ((Passes.step cut means (.refl _)).solid hs) (atLines_past m ha)
    refine ⟨.step (cutTag_append_right cut ?_ b) means ?_, ?_, h3⟩
    · obtain ⟨y, hy⟩ := ha
      simp [hy]
    · rw [past_extend m b ha]
      exact h1
    · rw [List.map_cons, List.flatMap_cons, List.flatMap_cons, tokens_extend m b ha, h2]

/-! ### Whole lines in front -/

theorem isTextOf_textTokens (s : Text) (lineStart : Bool) : IsTextOf s (textTokens s lineStart) := by
  unfold textTokens
  split
  · next hs => exact .inl ⟨hs, rfl⟩
  · exact .inr ⟨_, rfl⟩

theorem isTextOf_endTokens (c : Cursor) : IsTextOf c.rest c.endTokens := by
  unfold endTokens
  split
  · next hs => exact .inl ⟨hs, rfl⟩
  · exact .inr ⟨_, rfl⟩

namespace Fronted

variable {s : Text} {x y : Except Error (List Token)} {f : Error} {ts : List Token}

theorem refl (x : Except Error (List Token)) : Fronted [] x x := by
  cases x with
  | error e => exact .error rfl
  | ok ts =>
    have hnone : IsTextOf ([] ++ []) [] := .inl ⟨rfl, rfl⟩
    exact .ok hnone hnone ts

theorem of_error (h : Fronted s x (.error f)) : ∃ e, x = .error e ∧ e.kind = f.kind := by
  cases h with
  | error kind => exact ⟨_, rfl, kind⟩

theorem of_ok (h : Fronted s x (.ok ts)) : ∃ k us vs back, x = .ok (us ++ back) ∧
    ts = vs ++ back ∧ IsTextOf (s ++ k) us ∧ IsTextOf k vs := by
  cases h with
  | ok long short back => exact ⟨_, _, _, back, rfl, rfl, long, short⟩

end Fronted

/-- **Whole lines without a tag** go into the text that comes first behind them, and change nothing
else but what a fault shows of the text. -/
theorem scan_append {rest : Text} {lineStart : Bool} {pair : Delimiter}
    (hd : cutTag pair rest = .plain) (hp : pair.Solid) (hl : AtLines ⟨rest, lineStart, pair⟩)
    (b : Text) : Fronted rest (scan ⟨rest ++ b, lineStart, pair⟩).outcome
      (scan ⟨b, true, pair⟩).outcome := by
  rcases Text.wholeLines_iff.1 hl.whole with hr | ⟨x, hr⟩
  · -- the scan stands right before `b`, at the start of a line
    obtain rfl : rest = [] := hr
    obtain rfl : lineStart = true := hl.starts rfl
    exact .refl _
  · obtain rfl : rest = x ++ ['\n'] := hr
    have hcut : cutTag pair (x ++ ['\n'] ++ b) = (cutTag pair b).lead (x ++ ['\n']) := by
      simpa using cutTag_append_left hp.newline_not_mem_opening (cutTag_eq_plain_iff.1 hd) b
    cases hb : cutTag pair b with
    | plain =>
      rw [hb] at hcut
      rw [outcome_scan_of_plain hcut, outcome_scan_of_plain hb]
      simpa using Fronted.ok (isTextOf_endTokens ⟨x ++ ['\n'] ++ b, lineStart, pair⟩)
        (isTextOf_endTokens ⟨b, true, pair⟩) []
    | unclosed =>
      -- the two faults show different texts
      rw [hb] at hcut
      rw [outcome_scan_of_unclosed hcut, outcome_scan_of_unclosed hb]
      exact .error rfl
    | tag t =>
      rw [hb] at hcut
      rw [outcome_scan_of_tag (c := ⟨x ++ ['\n'] ++ b, lineStart, pair⟩) hcut,
        outcome_scan_of_tag (c := ⟨b, true, pair⟩) hb]
      show Fronted _ (t.meaning.bind _) _
      cases t.meaning with
      | error e => exact .error rfl
      | ok m =>
        have hpast : past ⟨x ++ ['\n'] ++ b, lineStart, pair⟩ (t.lead (x ++ ['\n'])) m =
            past ⟨b, true, pair⟩ t m := by
          simp only [past, Tag.rest_lead, Tag.endsLine_lead]
        simp only [Except.bind, hpast]
        cases (past ⟨b, true, pair⟩ t m).scan.outcome with
        | error e => exact .error rfl
        | ok later =>
          simp only [Except.map, tagTokens, Tag.kept_lead, Tag.line_lead]
          rw [List.append_assoc (textTokens _ _), List.append_assoc (textTokens _ _)]
          exact .ok (isTextOf_textTokens _ lineStart) (isTextOf_textTokens _ true) _

/-- A scan of whole lines passes all their tags, and goes on behind them from the text that they
leave. -/
theorem tokenize_append {a : Text} (ha : Text.WholeLines a)
    (hp : lastPair { rest := a } = .braces) (h : (tokenize a).outcome = .ok tokens) :
    ∃ stops rest lineStart, Passes { rest := a } stops ⟨rest, lineStart, .braces⟩ ∧
      cutTag .braces rest = .plain ∧ AtLines ⟨rest, lineStart, .braces⟩ ∧
      tokens = stops.flatMap Stop.tokens ++ endTokens ⟨rest, lineStart, .braces⟩ ∧
      ∀ b, (tokenize (a ++ b)).outcome = (scan ⟨rest ++ b, lineStart, .braces⟩).outcome.map
        (stops.flatMap Stop.tokens ++ ·) := by
  obtain ⟨stops, ⟨rest, lineStart, pair⟩, hpass, hd, rfl⟩ := outcome_scan_eq_ok_iff.1 h
  obtain rfl : pair = .braces := (hpass.lastPair_eq hd).symm.trans hp
  have happend := hpass.append Delimiter.solid_braces ⟨ha, fun _ => rfl⟩
  refine ⟨stops, rest, lineStart, hpass, hd, (happend []).2.2, rfl, fun b => ?_⟩
  obtain ⟨hpass', htok, -⟩ := happend b
  rw [← htok]
  exact hpass'.outcome_scan

end Mustache
