import Mustache.Proofs.Template.Margin
import Mustache.Proofs.Text.Parts

/-!
# Where nodes come from

A node occurs in a tree at its top or inside a section, at any depth (`Occurs`).  A node of a tree that
`build` gives comes from a token (`exists_token_of_occurs`), and a token that `tokenize` gives is a
part of the template or comes from one of its tags (`exists_stop_of_mem_tokenize`).  So a parsed tree
holds pieces of a template only (`not_occurs_foreign`), its texts and names are parts of the template
(`infix_of_occurs_text`, `infix_of_occurs_parse`), and what stands before its partials is blank
(`isMargin_of_occurs_parse`).  Where there is no tree, the fault lies in the template
(`isParseError_of_parse`).
-/

namespace Mustache

open Cursor Outcome

/-! ### Definitions -/

/-- The node is one of the nodes, or inside a section among them, at any depth. -/
inductive Occurs (n : Node) : List Node → Prop
  | here (rest : List Node) : Occurs n (n :: rest)
  | later (m : Node) {rest : List Node} (h : Occurs n rest) : Occurs n (m :: rest)
  | inside (name : Text) (inverted : Bool) {children : List Node} (rest : List Node)
      (h : Occurs n children) : Occurs n (.block name inverted children :: rest)

/-- The nodes that a node encloses. -/
def Node.children : Node → List Node
  | .block _ _ children => children
  | _ => []

/-- The name in a node. -/
def Node.name? : Node → Option Text
  | .field name _ | .block name _ _ | .partialRef name _ => some name
  | _ => none

/-- The name in a symbol. -/
def Symbol.name? : Symbol → Option Text
  | .field name _ | .sectionOpen name _ | .sectionClose name | .partialRef name => some name
  | _ => none

/-- The node can come from the token: a text may have lost its end, and a section comes from its opening
tag. -/
def Token.Yields (t : Token) : Node → Prop
  | .text s => ∃ whole, t.symbol = .text whole ∧ s <+: whole
  | .block name inverted _ => t.symbol = .sectionOpen name inverted
  | n => n ∈ t.leaves

/-- The tag is one that a scan of the text meets: the first one of what was left of it there. -/
structure Stop.Of (stop : Stop) (s : Text) : Prop where
  cut : cutTag stop.cursor.delimiter stop.cursor.rest = .tag stop.tag
  means : stop.tag.meaning = .ok stop.meaning
  rest : stop.cursor.rest <:+ s

variable {n : Node} {ns ms : List Node} {t : Token} {ts : List Token} {s : Text} {name w : Text}
  {pair : Delimiter} {c d : Cursor} {stops : List Stop} {stop : Stop} {e : Error}

/-! ### Occurrences -/

theorem not_occurs_nil (n : Node) : ¬ Occurs n [] := fun h => nomatch h

theorem occurs_append_iff : Occurs n (ns ++ ms) ↔ Occurs n ns ∨ Occurs n ms := by
  constructor
  · intro h
    induction ns with
    | nil => exact .inr h
    | cons m ns ih =>
      cases h with
      | here => exact .inl (.here ns)
      | later _ h => exact (ih h).imp_left (.later m)
      | inside name inverted _ h => exact .inl (.inside name inverted ns h)
  · rintro (h | h)
    · induction h with
      | here rest => exact .here (rest ++ ms)
      | later m _ ih => exact .later m ih
      | inside name inverted rest h => exact .inside name inverted (rest ++ ms) h
    · induction ns with
      | nil => exact h
      | cons m ns ih => exact .later m ih

/-- An occurrence is the first node, inside it, or behind it. -/
theorem occurs_cons_iff {m : Node} :
    Occurs n (m :: ns) ↔ n = m ∨ Occurs n m.children ∨ Occurs n ns := by
  constructor
  · intro h
    cases h with
    | here => exact .inl rfl
    | later _ h => exact .inr (.inr h)
    | inside name inverted _ h => exact .inr (.inl h)
  · rintro (rfl | h | h)
    · exact .here ns
    · cases m with
      | block name inverted children => exact .inside name inverted ns h
      | _ => exact absurd h (not_occurs_nil n)
    · exact .later m h

/-- What occurs among nodes without sections is one of them. -/
theorem mem_of_occurs (hns : ∀ m ∈ ns, ∀ name inverted children, m ≠ .block name inverted children)
    (h : Occurs n ns) : n ∈ ns := by
  induction h with
  | here rest => exact List.mem_cons_self
  | later m _ ih =>
    exact List.mem_cons_of_mem m (ih fun x hx => hns x (List.mem_cons_of_mem m hx))
  | inside name inverted rest _ => exact absurd rfl (hns _ List.mem_cons_self name inverted _)

/-- A list of nodes is empty, or starts with a node that holds no others or with a section. -/
@[elab_as_elim]
theorem nodes_induction {motive : List Node → Prop} (nil : motive [])
    (leaf : ∀ n rest, (∀ name inverted children, n ≠ .block name inverted children) →
      motive rest → motive (n :: rest))
    (block : ∀ name inverted children rest, motive children → motive rest →
      motive (.block name inverted children :: rest)) : ∀ ns, motive ns
  | [] => nil
  | .block name inverted children :: rest =>
    block name inverted children rest (nodes_induction nil leaf block children)
      (nodes_induction nil leaf block rest)
  | .text _ :: rest => leaf _ rest nofun (nodes_induction nil leaf block rest)
  | .field _ _ :: rest => leaf _ rest nofun (nodes_induction nil leaf block rest)
  | .comment _ :: rest => leaf _ rest nofun (nodes_induction nil leaf block rest)
  | .partialRef _ _ :: rest => leaf _ rest nofun (nodes_induction nil leaf block rest)
  | .foreign _ :: rest => leaf _ rest nofun (nodes_induction nil leaf block rest)

/-! ### From nodes to tokens -/

theorem field_mem_leaves_iff {escaped : Bool} :
    .field name escaped ∈ t.leaves ↔ t.symbol = .field name escaped := by
  unfold Token.leaves
  cases t.symbol with
  | field other marked => simp [eq_comm (a := name), eq_comm (a := escaped)]
  | comment content => cases t.line.standalone <;> simp
  | _ => simp

theorem partialRef_mem_leaves_iff : .partialRef name w ∈ t.leaves ↔
    t.symbol = .partialRef name ∧ w = if t.line.standalone then t.line.preceding else [] := by
  unfold Token.leaves
  cases t.symbol with
  | comment content => cases t.line.standalone <;> simp
  | partialRef other => simp [eq_comm (a := name)]
  | _ => simp

theorem foreign_not_mem_leaves {kind : Text} : .foreign kind ∉ t.leaves := by
  unfold Token.leaves
  split <;> simp_all

theorem yields_of_mem_leaves (h : n ∈ t.leaves) : t.Yields n := by
  have hleaf := h
  unfold Token.leaves at h
  split at h
  · next content ht =>
    obtain rfl := List.mem_singleton.1 h
    exact ⟨content, ht, List.prefix_refl content⟩
  · obtain rfl := List.mem_singleton.1 h
    exact hleaf
  · split at h
    · cases h
    · obtain rfl := List.mem_singleton.1 h
      exact hleaf
  · obtain rfl := List.mem_singleton.1 h
    exact hleaf
  · cases h
  · cases h

/-- Trimming can only cut the end off a text. -/
theorem occurs_of_occurs_trimNodes {s : Split} (h : Occurs n (s.trimNodes ns)) : Occurs n ns ∨
    ∃ content trimmed, n = .text trimmed ∧ trimmed <+: content ∧ Occurs (.text content) ns := by
  unfold Split.trimNodes at h
  split at h
  · unfold trimEnd at h
    split at h
    · next content hlast =>
      have hns := List.dropLast_append_getLast? _ hlast
      rcases occurs_append_iff.1 h with h | h
      · left
        rw [← hns]
        exact occurs_append_iff.2 (.inl h)
      · split at h
        · exact absurd h (not_occurs_nil n)
        · right
          have hn := List.mem_singleton.1 (mem_of_occurs (by simp) h)
          refine ⟨content, _, hn, Text.dropEnding_isPrefix _ _, ?_⟩
          rw [← hns]
          exact occurs_append_iff.2 (.inr (.here []))
    · exact .inl h
  · exact .inl h

/-- **Every node comes from a token.** -/
theorem exists_token_of_occurs (h : build ts = .ok ns) (hn : Occurs n ns) :
    ∃ t ∈ ts, t.Yields n := by
  induction ts using sections_induction generalizing n ns with
  | nil =>
    rw [build_nil] at h
    cases h
    cases hn
  | single t rest ht ih =>
    rw [build_single ht] at h
    obtain ⟨later, hl, rfl⟩ := map_eq_ok_iff.1 h
    rcases occurs_append_iff.1 hn with hn | hn
    · have hblock : ∀ m ∈ t.leaves, ∀ name inverted children, m ≠ .block name inverted children := by
        rintro _ hm name inverted children rfl
        exact ht name inverted (yields_of_mem_leaves hm)
      exact ⟨t, List.mem_cons_self, yields_of_mem_leaves (mem_of_occurs hblock hn)⟩
    · obtain ⟨u, hu, hy⟩ := ih hl hn
      exact ⟨u, List.mem_cons_of_mem t hu, hy⟩
  | unclosed t rest name inverted ht hs =>
    rw [build_unclosed ht hs] at h
    cases h
  | block t rest name inverted s ht hs ihb iha =>
    rw [build_block ht hs] at h
    obtain ⟨children, hc, h⟩ := bind_eq_ok_iff.1 h
    obtain ⟨later, hl, rfl⟩ := map_eq_ok_iff.1 h
    obtain ⟨⟨close, hrest, -⟩, -⟩ := splitClose_eq_some_iff.1 hs
    have hbody : ∀ u ∈ s.body, u ∈ t :: rest := fun u hu => by simp [hrest, hu]
    have hafter : ∀ u ∈ s.after, u ∈ t :: rest := fun u hu => by simp [hrest, hu]
    cases hn with
    | here => exact ⟨t, List.mem_cons_self, ht⟩
    | later _ hn =>
      obtain ⟨u, hu, hy⟩ := iha hl hn
      exact ⟨u, hafter u hu, hy⟩
    | inside _ _ _ hn =>
      rcases occurs_of_occurs_trimNodes hn with hn | ⟨content, trimmed, rfl, htrim, hn⟩
      · obtain ⟨u, hu, hy⟩ := ihb hc hn
        exact ⟨u, hbody u hu, hy⟩
      · obtain ⟨u, hu, whole, hsym, hpre⟩ := ihb hc hn
        exact ⟨u, hbody u hu, whole, hsym, htrim.trans hpre⟩

theorem name?_of_yields (h : t.Yields n) (hname : n.name? = some name) :
    t.symbol.name? = some name := by
  cases n with
  | text _ => cases hname
  | block n inverted children =>
    obtain rfl : n = name := by simpa [Node.name?] using hname
    rw [show t.symbol = .sectionOpen n inverted from h]
    rfl
  | comment _ => cases hname
  | foreign _ => cases hname
  | field n escaped =>
    rw [field_mem_leaves_iff.1 h]
    exact hname
  | partialRef n w =>
    rw [(partialRef_mem_leaves_iff.1 h).1]
    exact hname

/-- A partial comes from its tag, and takes the margin along if the tag has its line for itself. -/
theorem exists_token_of_occurs_partialRef (h : build ts = .ok ns)
    (hn : Occurs (.partialRef name w) ns) : ∃ t ∈ ts, t.symbol = .partialRef name ∧
      w = if t.line.standalone then t.line.preceding else [] := by
  obtain ⟨t, ht, hy⟩ := exists_token_of_occurs h hn
  exact ⟨t, ht, partialRef_mem_leaves_iff.1 hy⟩

/-! ### From tokens to tags -/

/-- The name in a tag is a part of its content. -/
theorem Tag.infix_of_name? {tag : Tag} {m : Meaning} {sym : Symbol} (h : tag.meaning = .ok m)
    (hm : m.symbol? = some sym) (hname : sym.name? = some name) : name <:+: tag.content := by
  have hrest : ∀ (x : Char) (rest : Text), Text.strip rest <:+: x :: rest := fun x rest =>
    (Text.strip_isInfix rest).trans (List.suffix_cons x rest).isInfix
  unfold Tag.meaning at h
  split at h
  · cases h
    cases hm
  · obtain ⟨pair, -, rfl⟩ := map_eq_ok_iff.1 h
    cases hm
  · cases h
    cases hm
    cases hname
  iterate 5
    next hc =>
      cases h
      cases hm
      cases hname
      rw [hc]
      exact hrest _ _
  · next x rest _ _ _ _ _ _ _ hc =>
    rw [hc]
    split at h
    · cases h
      cases hm
      cases hname
      have hbrace : Text.dropEnding ['}'] rest <:+: rest := (Text.dropEnding_isPrefix _ rest).isInfix
      exact ((Text.strip_isInfix _).trans hbrace).trans (List.suffix_cons x rest).isInfix
    · cases h
      cases hm
      cases hname
      exact Text.strip_isInfix _

theorem Passes.rest_suffix (h : Passes c stops d) : d.rest <:+ c.rest := by
  induction h with
  | refl c => exact List.suffix_refl c.rest
  | @step c d tag m stops cut means later ih => exact ih.trans (rest_past_suffix cut m)

/-- A passage meets tags of the text that it starts with. -/
theorem Passes.of_mem (h : Passes c stops d) (hs : stop ∈ stops) : stop.Of c.rest := by
  induction h with
  | refl c => cases hs
  | @step c d tag m stops cut means later ih =>
    rcases List.mem_cons.1 hs with rfl | hs
    · exact ⟨cut, means, List.suffix_refl c.rest⟩
    · have hlater := ih hs
      exact ⟨hlater.cut, hlater.means, hlater.rest.trans (rest_past_suffix cut m)⟩

/-- A tag with its markers, and the text before it, are a part of the text. -/
theorem Stop.Of.isInfix (h : stop.Of s) : stop.tag.before ++ stop.cursor.delimiter.opening ++
    stop.tag.content ++ stop.cursor.delimiter.closing ++ stop.tag.brace <:+: s := by
  obtain ⟨hrest, -⟩ := cutTag_eq_tag_iff.1 h.cut
  have hfront := List.prefix_append (stop.tag.before ++ stop.cursor.delimiter.opening ++
    stop.tag.content ++ stop.cursor.delimiter.closing ++ stop.tag.brace) stop.tag.after
  rw [← hrest] at hfront
  exact hfront.isInfix.trans h.rest.isInfix

theorem Stop.Of.infix_content (h : stop.Of s) : stop.tag.content <:+: s := by
  refine List.IsInfix.trans ⟨stop.tag.before ++ stop.cursor.delimiter.opening,
    stop.cursor.delimiter.closing ++ stop.tag.brace, ?_⟩ h.isInfix
  simp

theorem Stop.Of.infix_kept (h : stop.Of s) (lineStart : Bool) : stop.tag.kept lineStart <:+: s := by
  have hkept : stop.tag.kept lineStart <:+: stop.tag.before :=
    ⟨[], _, by simpa using stop.tag.kept_append_margin lineStart⟩
  refine (hkept.trans (List.prefix_append _ (stop.cursor.delimiter.opening ++ (stop.tag.content ++
    (stop.cursor.delimiter.closing ++ stop.tag.brace)))).isInfix).trans ?_
  simpa using h.isInfix

/-- **Every token is a part of the template, or comes from a tag** of it. -/
theorem exists_stop_of_mem_tokenize (h : (tokenize s pair).outcome = .ok ts) (ht : t ∈ ts) :
    (∃ content, t.symbol = .text content ∧ content <:+: s) ∨
      ∃ stop : Stop, stop.Of s ∧ stop.meaning.symbol? = some t.symbol ∧
        t.line = stop.tag.line stop.cursor.lineStart := by
  obtain ⟨stops, d, hpass, -, rfl⟩ := outcome_scan_eq_ok_iff.1 h
  have htext : ∀ {k us}, IsTextOf k us → t ∈ us → t.symbol = .text k := by
    intro k us hk hu
    rcases hk with ⟨-, rfl⟩ | ⟨line, rfl⟩
    · cases hu
    · obtain rfl := List.mem_singleton.1 hu
      rfl
  rcases List.mem_append.1 ht with ht | ht
  · obtain ⟨stop, hs, ht⟩ := List.mem_flatMap.1 ht
    have hof : stop.Of s := hpass.of_mem hs
    rcases List.mem_append.1 ht with ht | ht
    · exact .inl ⟨_, htext (isTextOf_textTokens _ _) ht, hof.infix_kept _⟩
    · obtain ⟨sym, hsym, rfl⟩ := List.mem_map.1 ht
      exact .inr ⟨stop, hof, Option.mem_toList.1 hsym, rfl⟩
  · exact .inl ⟨d.rest, htext (isTextOf_endTokens d) ht, hpass.rest_suffix.isInfix⟩

/-! ### Parsed trees -/

theorem outcome_parse_eq_ok_iff : (parse s pair).outcome = .ok ns ↔
    ∃ ts, (tokenize s pair).outcome = .ok ts ∧ build ts = .ok ns := by
  simp only [parse, Traced.outcome_bind, Traced.outcome_ofExcept, bind_eq_ok_iff]

/-- A parsed tree holds pieces of a template only. -/
theorem not_occurs_foreign (h : (parse s pair).outcome = .ok ns) (kind : Text) :
    ¬ Occurs (.foreign kind) ns := by
  intro hn
  obtain ⟨ts, -, hb⟩ := outcome_parse_eq_ok_iff.1 h
  obtain ⟨t, -, hy⟩ := exists_token_of_occurs hb hn
  exact foreign_not_mem_leaves hy

/-- **The texts of a tree** are parts of the template. -/
theorem infix_of_occurs_text (h : (parse s pair).outcome = .ok ns) {content : Text}
    (hn : Occurs (.text content) ns) : content <:+: s := by
  obtain ⟨ts, htok, hb⟩ := outcome_parse_eq_ok_iff.1 h
  obtain ⟨t, ht, whole, hwhole, hpre⟩ := exists_token_of_occurs hb hn
  rcases exists_stop_of_mem_tokenize htok ht with ⟨k, hk, hinfix⟩ | ⟨stop, hof, hm, -⟩
  · obtain rfl : k = whole := by simpa [hwhole] using hk.symm
    exact hpre.isInfix.trans hinfix
  · rw [hwhole] at hm
    rcases Tag.symbol?_cases hof.means hm with ⟨name, escaped, hfield⟩ | ⟨-, hne⟩
    · cases hfield
    · exact absurd rfl (hne whole)

/-- **The names of a tree** are parts of the template. -/
theorem infix_of_occurs_parse (h : (parse s pair).outcome = .ok ns) (hn : Occurs n ns)
    (hname : n.name? = some name) : name <:+: s := by
  obtain ⟨ts, htok, hb⟩ := outcome_parse_eq_ok_iff.1 h
  obtain ⟨t, ht, hy⟩ := exists_token_of_occurs hb hn
  have hsym := name?_of_yields hy hname
  rcases exists_stop_of_mem_tokenize htok ht with ⟨content, hc, -⟩ | ⟨stop, hof, hm, -⟩
  · rw [hc] at hsym
    cases hsym
  · exact (Tag.infix_of_name? hof.means hm hsym).trans hof.infix_content

/-- **A field** comes from a tag that means it. -/
theorem exists_stop_of_occurs_field (h : (parse s pair).outcome = .ok ns) {escaped : Bool}
    (hn : Occurs (.field name escaped) ns) :
    ∃ stop : Stop, stop.Of s ∧ stop.meaning.symbol? = some (.field name escaped) := by
  obtain ⟨ts, htok, hb⟩ := outcome_parse_eq_ok_iff.1 h
  obtain ⟨t, ht, hy⟩ := exists_token_of_occurs hb hn
  have hsym : t.symbol = .field name escaped := field_mem_leaves_iff.1 hy
  rcases exists_stop_of_mem_tokenize htok ht with ⟨content, hc, -⟩ | ⟨stop, hof, hm, -⟩
  · rw [hc] at hsym
    cases hsym
  · exact ⟨stop, hof, hsym ▸ hm⟩

/-- **The margin of a partial** is blank, and on one line. -/
theorem isMargin_of_occurs_parse (h : (parse s pair).outcome = .ok ns)
    (hn : Occurs (.partialRef name w) ns) : Text.IsMargin w := by
  obtain ⟨ts, htok, hb⟩ := outcome_parse_eq_ok_iff.1 h
  obtain ⟨t, ht, hsym, hw⟩ := exists_token_of_occurs_partialRef hb hn
  by_cases hstand : t.line.standalone = true
  · rw [if_pos hstand] at hw
    rcases exists_stop_of_mem_tokenize htok ht with ⟨content, hc, -⟩ | ⟨stop, -, -, hl⟩
    · rw [hc] at hsym
      cases hsym
    · rw [hl] at hw hstand
      rw [hw]
      refine Text.isMargin_lastLine ?_
      have hfirst : (stop.tag.line stop.cursor.lineStart).firstOnLine = true := by
        simp only [LineInfo.standalone, Bool.and_eq_true] at hstand
        exact hstand.1.1
      simp only [Tag.line, Bool.and_eq_true] at hfirst
      exact hfirst.2
  · rw [if_neg hstand] at hw
    rw [hw]
    exact Text.isMargin_nil

/-! ### Faults and notes of parsing -/

theorem Tag.isParseError_of_meaning {tag : Tag} (h : tag.meaning = .error e) :
    e.isParseError = true := by
  obtain ⟨-, -, rfl⟩ := Tag.meaning_eq_error_iff.1 h
  rfl

theorem isParseError_of_scan (h : c.scan.outcome = .error e) : e.isParseError = true := by
  induction hn : c.rest.length using Nat.strong_induction_on generalizing c with
  | h n ih =>
    cases hc : cutTag c.delimiter c.rest with
    | plain =>
      rw [outcome_scan_of_plain hc] at h
      cases h
    | unclosed =>
      rw [outcome_scan_of_unclosed hc] at h
      cases h
      rfl
    | tag t =>
      rw [outcome_scan_of_tag hc] at h
      rcases bind_eq_error_iff.1 h with h | ⟨m, -, h⟩
      · exact Tag.isParseError_of_meaning h
      · exact ih _ (hn ▸ length_past_lt m hc) (map_eq_error_iff.1 h) rfl

theorem isParseError_of_build (h : build ts = .error e) : e.isParseError = true := by
  induction ts using sections_induction with
  | nil =>
    rw [build_nil] at h
    cases h
  | single t rest ht ih =>
    rw [build_single ht] at h
    exact ih (map_eq_error_iff.1 h)
  | unclosed t rest name inverted ht hs =>
    rw [build_unclosed ht hs] at h
    cases h
    rfl
  | block t rest name inverted s ht hs ihb iha =>
    rw [build_block ht hs] at h
    rcases bind_eq_error_iff.1 h with h | ⟨children, -, h⟩
    · exact ihb h
    · exact iha (map_eq_error_iff.1 h)

/-- **A fault of parsing** lies in the text of the template. -/
theorem isParseError_of_parse (h : (parse s pair).outcome = .error e) : e.isParseError = true := by
  simp only [parse, Traced.outcome_bind, Traced.outcome_ofExcept] at h
  rcases bind_eq_error_iff.1 h with h | ⟨ts, -, h⟩
  · exact isParseError_of_scan h
  · exact isParseError_of_build h

theorem exists_pair_of_mem_notes_scan {note : Note} (h : note ∈ c.scan.notes) :
    ∃ p, note = .delimiters p := by
  induction hn : c.rest.length using Nat.strong_induction_on generalizing c with
  | h n ih =>
    rw [scan] at h
    split at h
    · exact absurd h List.not_mem_nil
    · exact absurd h List.not_mem_nil
    · next t ht =>
      have hlater : ∀ m, note ∈ (c.past t m).scan.notes → ∃ p, note = .delimiters p :=
        fun m hm => ih _ (hn ▸ length_past_lt m ht) hm rfl
      rcases Traced.mem_notes_bind.1 h with h | ⟨m, -, h⟩
      · exact absurd h List.not_mem_nil
      · split at h
        · rcases Traced.mem_notes_bind.1 h with h | ⟨_, -, h⟩
          · exact ⟨_, List.mem_singleton.1 h⟩
          · rcases Traced.mem_notes_bind.1 h with h | ⟨_, -, h⟩
            · exact hlater m h
            · exact absurd h List.not_mem_nil
        · rcases Traced.mem_notes_bind.1 h with h | ⟨_, -, h⟩
          · exact hlater m h
          · exact absurd h List.not_mem_nil

/-- Parsing notes changes of markers only. -/
theorem exists_pair_of_mem_notes_parse {note : Note} (h : note ∈ (parse s pair).notes) :
    ∃ p, note = .delimiters p := by
  rcases Traced.mem_notes_bind.1 h with h | ⟨ts, -, h⟩
  · exact exists_pair_of_mem_notes_scan h
  · exact absurd h List.not_mem_nil

end Mustache
