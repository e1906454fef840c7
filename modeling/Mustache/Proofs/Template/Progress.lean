import Mustache.Proofs.Template.Origin

/-!
# A scan makes progress

A scan stands at a position in its template: the sum of the widths of the tags that it has passed
(`position`).  Each tag moves it on by at least the lengths of its two markers and not past the end
of the template (`Stop.length_markers_le_width`, `width_add_length_past`), because neither marker is
ever empty: the pair in force is the one at the start or the last one that a tag names
(`Passes.delimiter_eq`), and a tag that names a pair names two words (`Tag.meaning_of_markerWords`).
So a scan comes to its end after finitely many tags (`exists_passes_ends`), and gives no more tokens
than the template has characters (`length_le_of_scan`).  `tokenize_progress` says all this of a
template.
-/

namespace Mustache

open Cursor

/-! ### Definitions -/

/-- How far a tag moves the scan on: over the text before it, the tag with its markers, and the line
break that goes with the tag's line. -/
def Stop.width (s : Stop) : Nat :=
  s.tag.before.length + s.cursor.delimiter.opening.length + s.tag.content.length +
    s.cursor.delimiter.closing.length + s.tag.triple.toNat +
      (s.tag.ending s.cursor.lineStart).length

/-- Where in its template a scan stands that has passed the tags. -/
def position : List Stop → Nat
  | [] => 0
  | s :: stops => s.width + position stops

/-- The pair that the last change of markers among the tags names, if there is one. -/
def lastChange (stops : List Stop) : Option Delimiter :=
  (stops.filterMap fun s => s.meaning.change?).getLast?

/-- **How a scan ends**: no tag is left, or one that is not closed, or a change of markers that does
not name two. -/
inductive Cursor.Ends (c : Cursor) : Except Error (List Token) → Prop
  | plain (h : cutTag c.delimiter c.rest = .plain) : c.Ends (.ok c.endTokens)
  | unclosed (h : cutTag c.delimiter c.rest = .unclosed) : c.Ends (.error (.unclosedTag c.rest))
  | refused {t : Tag} (h : cutTag c.delimiter c.rest = .tag t) (sign : t.content.head? = some '=')
    (words : t.markerWords.length ≠ 2) : c.Ends (.error (.badDelimiters t.content))

/-- **What holds wherever a scan comes**: it has started on `template` with `pair` in force, has
passed the tags `stops`, and stands at `c`. -/
structure Cursor.OnTrack (template : Text) (pair : Delimiter) (stops : List Stop) (c : Cursor) :
    Prop where
  position_le : position stops ≤ template.length
  rest_eq : c.rest = template.drop (position stops)
  /-- A bound on how many tags can be passed. -/
  two_mul_length_le : 2 * stops.length ≤ position stops
  opening_ne_nil : c.delimiter.opening ≠ []
  closing_ne_nil : c.delimiter.closing ≠ []
  in_force : c.delimiter = (lastChange stops).getD pair
  /-- Once the markers have been changed, they are free of blanks. -/
  solid : ∀ stop ∈ stops, stop.meaning.change? ≠ none → c.delimiter.Solid
  /-- Two words in a change of markers are never refused as markers. -/
  accepts : ∀ t opening closing, cutTag c.delimiter c.rest = .tag t →
    t.content.head? = some '=' → t.markerWords = [opening, closing] →
    ∃ p, Delimiter.ofMarkers opening closing = .ok p ∧ p.Solid ∧ t.meaning = .ok (.change p)
  /-- The next tag moves the scan on by its markers at least, and not past the end. -/
  advances : ∀ t m, cutTag c.delimiter c.rest = .tag t → t.meaning = .ok m →
    c.delimiter.opening.length + c.delimiter.closing.length ≤ (Stop.mk c t m).width ∧
      position stops + (Stop.mk c t m).width ≤ template.length ∧
      (c.past t m).rest = template.drop (position stops + (Stop.mk c t m).width)

variable {c d : Cursor} {t : Tag} {stops : List Stop} {stop : Stop} {tokens : List Token}

/-! ### One tag -/

theorem Stop.length_markers_le_width (s : Stop) :
    s.cursor.delimiter.opening.length + s.cursor.delimiter.closing.length ≤ s.width := by
  unfold width
  omega

theorem Delimiter.two_le_length (p : Delimiter) : 2 ≤ p.opening.length + p.closing.length := by
  have ho := List.length_pos_iff.2 p.opening_ne_nil
  have hc := List.length_pos_iff.2 p.closing_ne_nil
  omega

theorem Stop.two_le_width (s : Stop) : 2 ≤ s.width :=
  s.cursor.delimiter.two_le_length.trans s.length_markers_le_width

/-- **A tag moves the scan on by its width**, which is no more than what was left. -/
theorem width_add_length_past (h : cutTag c.delimiter c.rest = .tag t) (m : Meaning) :
    (Stop.mk c t m).width + (c.past t m).rest.length = c.rest.length := by
  have hcut := length_of_cutTag h
  have hafter := congrArg List.length (t.ending_append_rest c.lineStart)
  rw [List.length_append] at hafter
  show t.before.length + c.delimiter.opening.length + t.content.length +
    c.delimiter.closing.length + t.triple.toNat + (t.ending c.lineStart).length +
      (t.rest c.lineStart).length = c.rest.length
  omega

theorem rest_past_eq_drop (h : cutTag c.delimiter c.rest = .tag t) (m : Meaning) :
    (c.past t m).rest = c.rest.drop (Stop.mk c t m).width := by
  have hlength := width_add_length_past h m
  rw [List.suffix_iff_eq_drop.1 (rest_past_suffix h m)]
  congr 1
  omega

/-- A text gives one token, if there is something in it. -/
theorem length_token_le (s : Text) (token : Token) :
    (if s = [] then [] else [token]).length ≤ s.length := by
  split
  · exact Nat.zero_le _
  · next hs => exact List.length_pos_iff.2 hs

/-- A tag leaves fewer tokens behind than it has characters. -/
theorem Stop.length_tokens_lt (s : Stop) : s.tokens.length < s.width := by
  have htext : (textTokens (s.tag.kept s.cursor.lineStart) s.cursor.lineStart).length ≤
    (s.tag.kept s.cursor.lineStart).length := length_token_le _ _
  have hkept := congrArg List.length (s.tag.kept_append_margin s.cursor.lineStart)
  have hsymbol : s.meaning.symbol?.toList.length ≤ 1 := Option.length_toList_le
  -- the markers make up for the token of the symbol
  have hmarkers := s.cursor.delimiter.two_le_length
  rw [List.length_append] at hkept
  unfold tokens tagTokens width
  rw [List.length_append, List.length_map]
  omega

/-! ### Passages -/

@[simp] theorem position_nil : position [] = 0 := rfl

theorem position_cons (s : Stop) (stops : List Stop) :
    position (s :: stops) = s.width + position stops := rfl

theorem Passes.position_add_length (h : Passes c stops d) :
    position stops + d.rest.length = c.rest.length := by
  induction h with
  | refl c => simp
  | @step c d t m stops cut means later ih =>
    have hstep := width_add_length_past cut m
    rw [position_cons]
    omega

/-- **What is left for a scan** is its template without the first characters, as many as its position
says. -/
theorem Passes.rest_eq_drop (h : Passes c stops d) : d.rest = c.rest.drop (position stops) := by
  have hlength := h.position_add_length
  rw [List.suffix_iff_eq_drop.1 h.rest_suffix]
  congr 1
  omega

theorem two_mul_length_le_position (stops : List Stop) : 2 * stops.length ≤ position stops := by
  induction stops with
  | nil => exact Nat.zero_le _
  | cons s stops ih =>
    have hs := s.two_le_width
    rw [position_cons, List.length_cons]
    omega

theorem length_flatMap_tokens_le (stops : List Stop) :
    (stops.flatMap Stop.tokens).length ≤ position stops := by
  induction stops with
  | nil => exact Nat.zero_le _
  | cons s stops ih =>
    have hs := s.length_tokens_lt
    rw [position_cons, List.flatMap_cons, List.length_append]
    omega

theorem lastChange_cons (s : Stop) (stops : List Stop) (pair : Delimiter) :
    (lastChange (s :: stops)).getD pair = (lastChange stops).getD (s.meaning.change?.getD pair) := by
  unfold lastChange
  rw [List.filterMap_cons]
  cases s.meaning.change? with
  | none => rfl
  | some p =>
    rw [List.getLast?_cons]
    rfl

/-- **The pair in force** is the one at the start, or what the last change of markers names. -/
theorem Passes.delimiter_eq (h : Passes c stops d) :
    d.delimiter = (lastChange stops).getD c.delimiter := by
  induction h with
  | refl c => rfl
  | @step c d t m stops cut means later ih =>
    rw [lastChange_cons]
    exact ih

/-- Once the markers have been changed, they are free of blanks. -/
theorem Passes.solid_of_changed (h : Passes c stops d) (hs : stop ∈ stops)
    (hchange : stop.meaning.change? ≠ none) : d.delimiter.Solid := by
  obtain ⟨p, hp⟩ := Option.ne_none_iff_exists'.1 hchange
  -- so there is a last change, which comes from a tag that the scan has passed as well
  have hmem : p ∈ stops.filterMap fun s => s.meaning.change? := List.mem_filterMap.2 ⟨stop, hs, hp⟩
  obtain ⟨last, hlast⟩ : ∃ last, lastChange stops = some last :=
    ⟨_, List.getLast?_eq_some_getLast (List.ne_nil_of_mem hmem)⟩
  obtain ⟨s, hmem, hs⟩ := List.mem_filterMap.1 (List.mem_of_getLast? hlast)
  rw [h.delimiter_eq, hlast]
  exact Tag.solid_of_change? (h.of_mem hmem).means hs

/-- **Wherever a scan comes**, it is on track. -/
theorem Passes.onTrack (h : Passes c stops d) : d.OnTrack c.rest c.delimiter stops where
  position_le := by
    have hlength := h.position_add_length
    omega
  rest_eq := h.rest_eq_drop
  two_mul_length_le := two_mul_length_le_position stops
  opening_ne_nil := d.delimiter.opening_ne_nil
  closing_ne_nil := d.delimiter.closing_ne_nil
  in_force := h.delimiter_eq
  solid _ hs hchange := h.solid_of_changed hs hchange
  accepts _ _ _ _ hsign hwords := Tag.meaning_of_markerWords hsign hwords
  advances t m hcut _ := by
    have hlength := h.position_add_length
    have hwidth := width_add_length_past hcut m
    refine ⟨(Stop.mk d t m).length_markers_le_width, by omega, ?_⟩
    rw [rest_past_eq_drop hcut m, h.rest_eq_drop, List.drop_drop]

/-! ### The end of a scan -/

/-- **A scan ends where it stands**, or finds a tag and goes on. -/
theorem ends_or_steps (c : Cursor) : c.Ends c.scan.outcome ∨
    ∃ t m, cutTag c.delimiter c.rest = .tag t ∧ t.meaning = .ok m := by
  cases hc : cutTag c.delimiter c.rest with
  | plain => exact .inl (outcome_scan_of_plain hc ▸ .plain hc)
  | unclosed => exact .inl (outcome_scan_of_unclosed hc ▸ .unclosed hc)
  | tag t =>
    cases hm : t.meaning with
    | ok m => exact .inr ⟨t, m, rfl, hm⟩
    | error e =>
      obtain ⟨hsign, hwords, rfl⟩ := Tag.meaning_eq_error_iff.1 hm
      have hout : c.scan.outcome = .error (.badDelimiters t.content) := by
        rw [outcome_scan_of_tag hc, hm]
        rfl
      exact .inl (hout ▸ .refused hc hsign hwords)

/-- **Every scan comes to its end**: each tag leaves less to be scanned. -/
theorem exists_passes_ends (c : Cursor) : ∃ stops d, Passes c stops d ∧ d.Ends d.scan.outcome := by
  induction hn : c.rest.length using Nat.strong_induction_on generalizing c with
  | h n ih =>
    rcases ends_or_steps c with h | ⟨t, m, hc, hm⟩
    · exact ⟨[], c, .refl c, h⟩
    · obtain ⟨stops, d, hpass, hend⟩ := ih _ (hn ▸ length_past_lt m hc) (c.past t m) rfl
      exact ⟨⟨c, t, m⟩ :: stops, d, .step hc hm hpass, hend⟩

/-- **A scan gives no more tokens** than there are characters. -/
theorem length_le_of_scan (h : c.scan.outcome = .ok tokens) : tokens.length ≤ c.rest.length := by
  obtain ⟨stops, d, hpass, -, rfl⟩ := outcome_scan_eq_ok_iff.1 h
  have hlength := hpass.position_add_length
  have hstops := length_flatMap_tokens_le stops
  have hend : d.endTokens.length ≤ d.rest.length := length_token_le _ _
  rw [List.length_append]
  omega

/-- **A scan makes progress**: wherever it comes, it is on track, with markers that are not empty and
a position in the template that each tag moves on; it comes to its end, with the tokens of the tags
passed and of what is left, or with a fault; and the tokens are no more than the characters. -/
theorem tokenize_progress (template : Text) (pair : Delimiter) :
    let start : Cursor := { rest := template, delimiter := pair }
    (∀ stops c, Passes start stops c → c.OnTrack template pair stops) ∧
      (∃ stops c outcome, Passes start stops c ∧ c.Ends outcome ∧
        (tokenize template pair).outcome = outcome.map (stops.flatMap Stop.tokens ++ ·)) ∧
      ∀ tokens, (tokenize template pair).outcome = .ok tokens → tokens.length ≤ template.length := by
  intro start
  refine ⟨fun stops c h => h.onTrack, ?_, fun tokens h => length_le_of_scan h⟩
  obtain ⟨stops, c, hpass, hend⟩ := exists_passes_ends start
  exact ⟨stops, c, _, hpass, hend, hpass.outcome_scan⟩

/-- Behind a change of markers on a line of its own, which takes its CR LF along, the scan finds a tag
in the new markers. -/
theorem tokenize_progress_change :
    let template : Text := "{{=< >=}}\r\nx<a>".toList
    let signs : Delimiter := ⟨['<'], ['>'], by decide, by decide⟩
    let c : Cursor := ⟨"x<a>".toList, true, signs⟩
    let t : Tag := ⟨['x'], ['a'], [], false⟩
    let m : Meaning := .symbol (.field ['a'] true)
    ∃ stop tokens, Passes { rest := template } [stop] c ∧ position [stop] = 11 ∧
      cutTag c.delimiter c.rest = .tag t ∧ t.meaning = .ok m ∧
      (tokenize template).outcome = .ok tokens ∧
      c.delimiter.Solid ∧ (c.past t m).rest = template.drop 15 ∧ tokens.length ≤ 15 := by
  intro template signs c t m
  let stop : Stop :=
    ⟨{ rest := template }, ⟨[], "=< >=".toList, "\r\nx<a>".toList, false⟩, .change signs⟩
  have hpass : Passes { rest := template } [stop] c := .step rfl rfl (.refl c)
  have hall : Passes { rest := template } [stop, ⟨c, t, m⟩] (c.past t m) :=
    .step rfl rfl (.step rfl rfl (.refl _))
  have hout : (tokenize template).outcome = .ok ([stop, ⟨c, t, m⟩].flatMap Stop.tokens ++ []) :=
    outcome_scan_eq_ok_iff.2 ⟨_, _, hall, rfl, rfl⟩
  obtain ⟨htrack, -, htokens⟩ := tokenize_progress template .braces
  have hc := htrack [stop] c hpass
  have hsolid := hc.solid stop (by simp) (by simp [stop, Meaning.change?])
  obtain ⟨-, -, hrest⟩ := hc.advances t m rfl rfl
  exact ⟨stop, _, hpass, rfl, rfl, rfl, hout, hsolid, hrest, htokens _ hout⟩

end Mustache
