import Mustache.Proofs.Template.Flatten

/-!
# Trees written out

A tree is written as a template by writing its symbols one behind the other (`Symbol.spellings`), in
double braces.  What is written says the tree again if it is `Inline`: a text that is not blank comes
first and no text breaks a line, so that no tag has its line for itself; texts hold no opening brace, and
what stands in a tag no closing one.  The scan then stops at each symbol in turn (`scan_spelled`), its
tokens are the tree laid out flat (`flattens_of_symbols`), and the template is parsed to the tree
(`parse_of_spells`).
-/

namespace Mustache

open Cursor Outcome

/-! ### Definitions -/

/-- A tag in double braces. -/
def inBraces (content : Text) : Text := '{' :: '{' :: (content ++ ['}', '}'])

namespace Symbol

/-- The ways to write a symbol.  A field whose markup is not escaped has two. -/
def spellings : Symbol → List Text
  | text content => [content]
  | field name true => [inBraces name]
  | field name false => [inBraces ('&' :: name), inBraces ('{' :: (name ++ ['}']))]
  | sectionOpen name false => [inBraces ('#' :: name)]
  | sectionOpen name true => [inBraces ('^' :: name)]
  | sectionClose name => [inBraces ('/' :: name)]
  | comment content => [inBraces ('!' :: content)]
  | partialRef name => [inBraces ('>' :: name)]

/-- A symbol can be read again where it is written: a text breaks no line and holds no opening brace, a
name has no blanks at its ends, no closing brace stands in a tag, and a field with nothing in front of its
name is not taken for another tag. -/
def Inline : Symbol → Prop
  | text content => content ≠ [] ∧ '{' ∉ content ∧ '\n' ∉ content ∧ '\r' ∉ content
  | field name true => (Text.strip name = name ∧ '}' ∉ name) ∧ name ≠ [] ∧
      ∀ c ∈ name.head?, c ∉ ['!', '#', '^', '/', '>', '=', '&', '{']
  | field name false | sectionOpen name _ | sectionClose name | partialRef name =>
    Text.strip name = name ∧ '}' ∉ name
  | comment content => '}' ∉ content

/-- The symbols of a text: one, or none if the text is empty. -/
def ofText (k : Text) : List Symbol := if k = [] then [] else [.text k]

end Symbol

/-- The text is the tree written out: its symbols in source order, each in one of its spellings. -/
def Spells (s : Text) (ns : List Node) : Prop :=
  ∃ parts, List.Forall₂ (fun t part => part ∈ t.symbol.spellings) (flatten ns) parts ∧
    s = parts.flatten

/-- Is the node a text? -/
def Node.isText : Node → Bool
  | .text _ => true
  | _ => false

/-- A node and the one behind it are not both texts. -/
def Node.Separate (m n : Node) : Prop := m.isText = true → n.isText = false

/-- A token and the one behind it are not both texts. -/
def Token.Separate (t u : Token) : Prop := t.isText = true → u.isText = false

/-- A node that can be read again where it is written; what a section encloses has no two texts side by
side, and a partial has no margin. -/
def Node.Inline : Node → Prop
  | .text content => (Symbol.text content).Inline
  | .field name escaped => (Symbol.field name escaped).Inline
  | .block name inverted children =>
    (Symbol.sectionOpen name inverted).Inline ∧ children.IsChain Node.Separate
  | .comment content => (Symbol.comment content).Inline
  | .partialRef name indentation => (Symbol.partialRef name).Inline ∧ indentation = []
  | .foreign _ => False

/-- **A tree that can be written on one line**: a text that is not blank comes first, no two texts stand
side by side, and every node at any depth can be read again where it is written. -/
structure Inline (ns : List Node) : Prop where
  starts : ∃ k rest, ns = .text k :: rest ∧ ∃ c ∈ k, Text.isBlank c = false
  separate : ns.IsChain Node.Separate
  nodes : ∀ n, Occurs n ns → n.Inline

/-- A text that can stand before a tag on its line: it breaks no line, holds no opening brace, and is not
blank if a line starts with it. -/
structure Leads (k : Text) (lineStart : Bool) : Prop where
  brace : '{' ∉ k
  breaks : ∀ c ∈ k, Text.isBreak c = false
  blank : lineStart = true → ∃ c ∈ k, Text.isBlank c = false

/-- The text is one tag in double braces that means the symbol. -/
def Symbol.IsTag (sym : Symbol) (part : Text) : Prop :=
  ∃ (content : Text) (triple : Bool),
    part = Delimiter.braces.opening ++ content ++ Delimiter.braces.closing ++
      (if triple then ['}'] else []) ∧
    '}' ∉ content ∧ (triple = true ↔ content.head? = some '{') ∧
    ∀ before after, (Tag.mk before content after triple).meaning = .ok (.symbol sym)

variable {sym : Symbol} {part k v s : Text} {parts : List Text} {ts us : List Token} {ns : List Node}
  {lineStart : Bool}

/-! ### One symbol -/

/-- What double braces hold is a tag if no brace comes first in it and no closing one anywhere. -/
theorem Symbol.isTag_inBraces {c : Char} {rest : Text} (hclose : c ≠ '}') (hopen : c ≠ '{')
    (hrest : '}' ∉ rest) (hmeans : ∀ before after,
      (Tag.mk before (c :: rest) after false).meaning = .ok (.symbol sym)) :
    sym.IsTag (inBraces (c :: rest)) := by
  have hcontent : '}' ∉ c :: rest := by simp [hrest, Ne.symm hclose]
  exact ⟨c :: rest, false, by simp [inBraces, Delimiter.braces], hcontent, by simp [hopen], hmeans⟩

/-- A symbol that is no text is written as a tag that means it. -/
theorem Symbol.Inline.isTag (h : sym.Inline) (hpart : part ∈ sym.spellings)
    (htext : ∀ content, sym ≠ .text content) : sym.IsTag part := by
  cases sym with
  | text content => exact absurd rfl (htext content)
  | field name escaped =>
    cases escaped with
    | true =>
      obtain ⟨⟨hstrip, hclose⟩, hne, hhead⟩ := h
      obtain ⟨c, rest, rfl⟩ := List.exists_cons_of_ne_nil hne
      obtain rfl := List.mem_singleton.1 hpart
      have hc : c ∉ ['!', '#', '^', '/', '>', '=', '&', '{'] := hhead c rfl
      simp only [List.mem_cons, List.not_mem_nil, or_false, not_or] at hc hclose
      refine isTag_inBraces (Ne.symm hclose.1) hc.2.2.2.2.2.2.2 hclose.2 fun before after => ?_
      unfold Tag.meaning
      split <;> simp_all
    | false =>
      obtain ⟨hstrip, hclose⟩ := h
      rcases List.mem_pair.1 hpart with rfl | rfl
      · exact isTag_inBraces (by decide) (by decide) hclose fun _ _ => by simp [Tag.meaning, hstrip]
      · -- the brace in front of the name is part of the content, the one behind it is not
        have hdrop : Text.dropEnding ['}'] name = name := by
          refine Text.dropEnding_of_not_suffix fun hsuffix => hclose ?_
          exact hsuffix.subset (List.mem_singleton_self _)
        refine ⟨'{' :: name, true, by simp [inBraces, Delimiter.braces], by simp [hclose], by simp,
          fun _ _ => ?_⟩
        simp [Tag.meaning, hdrop, hstrip]
  | sectionOpen name inverted =>
    obtain ⟨hstrip, hclose⟩ := h
    cases inverted with
    | true =>
      obtain rfl := List.mem_singleton.1 hpart
      exact isTag_inBraces (by decide) (by decide) hclose fun _ _ => by simp [Tag.meaning, hstrip]
    | false =>
      obtain rfl := List.mem_singleton.1 hpart
      exact isTag_inBraces (by decide) (by decide) hclose fun _ _ => by simp [Tag.meaning, hstrip]
  | sectionClose name =>
    obtain ⟨hstrip, hclose⟩ := h
    obtain rfl := List.mem_singleton.1 hpart
    exact isTag_inBraces (by decide) (by decide) hclose fun _ _ => by simp [Tag.meaning, hstrip]
  | comment content =>
    obtain rfl := List.mem_singleton.1 hpart
    exact isTag_inBraces (by decide) (by decide) h fun _ _ => by simp [Tag.meaning]
  | partialRef name =>
    obtain ⟨hstrip, hclose⟩ := h
    obtain rfl := List.mem_singleton.1 hpart
    exact isTag_inBraces (by decide) (by decide) hclose fun _ _ => by simp [Tag.meaning, hstrip]

/-- What a symbol is written as starts with a character that breaks no line. -/
theorem Symbol.Inline.exists_cons (h : sym.Inline) (hpart : part ∈ sym.spellings) :
    ∃ c rest, part = c :: rest ∧ Text.isBreak c = false := by
  by_cases htext : ∃ content, sym = .text content
  · obtain ⟨content, rfl⟩ := htext
    obtain rfl := List.mem_singleton.1 hpart
    obtain ⟨hne, -, hlf, hcr⟩ := h
    obtain ⟨c, rest, rfl⟩ := List.exists_cons_of_ne_nil hne
    refine ⟨c, rest, rfl, ?_⟩
    simp only [List.mem_cons, not_or] at hlf hcr
    simp [Text.isBreak, Ne.symm hlf.1, Ne.symm hcr.1]
  · obtain ⟨content, triple, rfl, -⟩ := h.isTag hpart fun k hk => htext ⟨k, hk⟩
    exact ⟨'{', _, rfl, by decide⟩

/-! ### The scan -/

/-- A text that can be read again where it is written leads a tag, if it is not blank where a line
starts. -/
theorem Symbol.Inline.leads (h : (Symbol.text k).Inline)
    (hblank : lineStart = true → ∃ c ∈ k, Text.isBlank c = false) : Leads k lineStart := by
  obtain ⟨-, hbrace, hlf, hcr⟩ := h
  refine ⟨hbrace, fun c hc => ?_, hblank⟩
  have h1 : c ≠ '\n' := fun he => hlf (he ▸ hc)
  have h2 : c ≠ '\r' := fun he => hcr (he ▸ hc)
  simp [Text.isBreak, h1, h2]

/-- A tag behind a text that leads it does not have its line for itself. -/
theorem Leads.standalone_line (hk : Leads k lineStart) (content : Text) (triple : Bool) :
    ((Tag.mk k content v triple).line lineStart).standalone = false := by
  have hlf : '\n' ∉ k := fun h => absurd (hk.breaks _ h) (by decide)
  have hany : k.any Text.isBreak = false := by
    rw [List.any_eq_false]
    exact fun c hc => by simp [hk.breaks c hc]
  have hfirst : ((Tag.mk k content v triple).line lineStart).firstOnLine = false := by
    cases lineStart with
    | false => simp [Tag.line, hany]
    | true =>
      obtain ⟨c, hc, hblank⟩ := hk.blank rfl
      have hall : k.all Text.isBlank = false := by
        rw [List.all_eq_false]
        exact ⟨c, hc, by simp [hblank]⟩
      simp [Tag.line, Text.lastLine_of_not_mem hlf, hall]
  simp [LineInfo.standalone, hfirst]

/-- **One tag**: the scan leaves the text before the tag and the tag's symbol, and goes on behind it
where no line starts. -/
theorem outcome_scan_of_isTag (hk : Leads k lineStart) (h : sym.IsTag part)
    (hv : v.head?.any Text.isBreak = false) : ∃ line : LineInfo, line.standalone = false ∧
      (scan ⟨k ++ part ++ v, lineStart, .braces⟩).outcome =
        (scan ⟨v, false, .braces⟩).outcome.map (textTokens k lineStart ++ [⟨sym, line⟩] ++ ·) := by
  obtain ⟨content, triple, rfl, hclose, htriple, hmeans⟩ := h
  let t : Tag := ⟨k, content, v, triple⟩
  have hstand : (t.line lineStart).standalone = false := hk.standalone_line content triple
  have helided : t.elided lineStart = false := by simp [Tag.elided, hstand]
  have hcut : cutTag .braces (k ++ (Delimiter.braces.opening ++ content ++ Delimiter.braces.closing ++
      (if triple then ['}'] else [])) ++ v) = .tag t := by
    refine cutTag_eq_tag_iff.2 ⟨by simp [t, Tag.brace], ?_, ?_, ?_⟩
    · exact Text.clear_of_head? Delimiter.braces.opening_ne_nil (by simpa [Delimiter.braces] using hk.brace)
    · exact Text.clear_of_head? Delimiter.braces.closing_ne_nil (by simpa [Delimiter.braces] using hclose)
    · show triple = true ↔ _ ∧ content.head? = some '{' ∧ _
      rw [htriple]
      constructor
      · intro hhead
        refine ⟨rfl, hhead, ?_⟩
        simp [t, Tag.brace, htriple.2 hhead]
      · exact fun h => h.2.1
  have hends : t.endsLine lineStart = false := by
    rw [Tag.endsLine, helided, Bool.false_or, Text.isSome_dropBreak?]
    exact hv
  have hpast : ∀ s, past ⟨s, lineStart, .braces⟩ t (.symbol sym) = ⟨v, false, .braces⟩ := by
    intro s
    simp [past, Tag.rest, helided, hends, Meaning.change?, t]
  refine ⟨t.line lineStart, hstand, ?_⟩
  rw [outcome_scan_of_tag hcut, hmeans k v, Except.bind, hpast]
  simp [tagTokens, Tag.kept, helided, Meaning.symbol?, t]

/-- Symbols written out start with a character that breaks no line, if there are any. -/
theorem head?_spelled (h : List.Forall₂ (fun t part => part ∈ t.symbol.spellings) ts parts)
    (hts : ∀ t ∈ ts, t.symbol.Inline) : parts.flatten.head?.any Text.isBreak = false := by
  cases h with
  | nil => rfl
  | @cons t part ts parts hpart h =>
    obtain ⟨c, rest, rfl, hc⟩ := (hts t List.mem_cons_self).exists_cons hpart
    simpa using hc

theorem map_symbol_textTokens (k : Text) (lineStart : Bool) :
    (textTokens k lineStart).map Token.symbol = Symbol.ofText k := by
  unfold textTokens Symbol.ofText
  split <;> rfl

theorem isText_of_mem_textTokens {u : Token} (hu : u ∈ textTokens k lineStart) : u.isText = true := by
  unfold textTokens at hu
  split at hu
  · cases hu
  · obtain rfl := List.mem_singleton.1 hu
    rfl

/-- **The scan of symbols written out** gives the symbols again, the text in front of them first, and no
tag has its line for itself. -/
theorem scan_spelled (h : List.Forall₂ (fun t part => part ∈ t.symbol.spellings) ts parts)
    (hts : ∀ t ∈ ts, t.symbol.Inline) (hsep : ts.IsChain Token.Separate) (hk : Leads k lineStart)
    (hfirst : k ≠ [] → ∀ t ∈ ts.head?, t.isText = false) :
    ∃ us, (scan ⟨k ++ parts.flatten, lineStart, .braces⟩).outcome = .ok us ∧
      us.map Token.symbol = Symbol.ofText k ++ ts.map Token.symbol ∧
      ∀ u ∈ us, u.isText = false → u.line.standalone = false := by
  induction h generalizing k lineStart with
  | nil =>
    have hplain : cutTag .braces (k ++ [].flatten) = .plain := by
      rw [List.flatten_nil, List.append_nil]
      refine cutTag_eq_plain_iff.2 fun hin => hk.brace ?_
      exact hin.subset List.mem_cons_self
    refine ⟨_, outcome_scan_of_plain hplain, ?_, fun u hu htext => ?_⟩
    · simp only [endTokens, Symbol.ofText, List.flatten_nil, List.append_nil, List.map_nil]
      split <;> rfl
    · rcases isTextOf_endTokens ⟨k ++ [].flatten, lineStart, .braces⟩ with ⟨-, he⟩ | ⟨line, he⟩
      · rw [he] at hu
        cases hu
      · rw [he] at hu
        obtain rfl := List.mem_singleton.1 hu
        cases htext
  | @cons t part ts parts hpart h ih =>
    have hin := hts t List.mem_cons_self
    have hrest : ∀ u ∈ ts, u.symbol.Inline := fun u hu => hts u (List.mem_cons_of_mem t hu)
    obtain ⟨hnext, hchain⟩ := List.isChain_cons.1 hsep
    by_cases htext : ∃ content, t.symbol = .text content
    · -- no text stands in front of a text, so the scan takes this one along to the next tag
      obtain ⟨content, hc⟩ := htext
      have htok : t.isText = true := by simp [Token.isText, hc]
      have hnil : k = [] := by
        by_contra hne
        exact absurd htok (by simp [hfirst hne t rfl])
      subst hnil
      rw [hc] at hpart hin
      obtain rfl := List.mem_singleton.1 hpart
      -- and since the empty text leads it, no line starts here
      have hlead : Leads part lineStart := hin.leads fun hl => by
        obtain ⟨c, hmem, -⟩ := hk.blank hl
        cases hmem
      obtain ⟨us, hscan, hsym, hline⟩ := ih hrest hchain hlead fun _ u hu => hnext u hu htok
      refine ⟨us, hscan, ?_, hline⟩
      rw [hsym]
      simp [Symbol.ofText, hin.1, hc]
    · have htag : t.symbol.IsTag part := hin.isTag hpart fun content hc => htext ⟨content, hc⟩
      have hnone : Leads [] false := ⟨by simp, by simp, by simp⟩
      obtain ⟨us, hscan, hsym, hlines⟩ := ih hrest hchain hnone fun hne => absurd rfl hne
      obtain ⟨line, hline, hstep⟩ := outcome_scan_of_isTag hk htag (head?_spelled h hrest)
      rw [List.nil_append] at hscan
      rw [hscan] at hstep
      rw [List.flatten_cons, ← List.append_assoc]
      refine ⟨_, hstep, ?_, fun u hu htok => ?_⟩
      · simp [map_symbol_textTokens, hsym, Symbol.ofText]
      · rcases List.mem_append.1 hu with hu | hu
        · rcases List.mem_append.1 hu with hu | hu
          · rw [isText_of_mem_textTokens hu] at htok
            cases htok
          · obtain rfl := List.mem_singleton.1 hu
            exact hline
        · exact hlines u hu htok

/-! ### Trees -/

/-- A node on its own is laid out as one token. -/
theorem exists_flatten_eq {n : Node} (hn : n.Inline)
    (hleaf : ∀ name inverted children, n ≠ .block name inverted children) :
    ∃ t, n.flatten = [t] ∧ t.symbol.Inline ∧ t.isText = n.isText := by
  cases n with
  | text content => exact ⟨_, rfl, hn, rfl⟩
  | field name escaped => exact ⟨_, rfl, hn, rfl⟩
  | block name inverted children => exact absurd rfl (hleaf name inverted children)
  | comment content => exact ⟨_, rfl, hn, rfl⟩
  | partialRef name w => exact ⟨_, rfl, hn.1, rfl⟩
  | foreign kind => exact hn.elim

theorem flatten_leaf {n : Node} {t : Token} (h : n.flatten = [t]) (rest : List Node) :
    flatten (n :: rest) = t :: flatten rest := by
  simp [flatten, h]

/-- A token that differs from that of a node only in its line is the node laid out, if it does not have
the line for itself. -/
theorem Flattens.leaf {n : Node} {t u : Token} (hn : n.Inline) (hflat : n.flatten = [t])
    (hsym : u.symbol = t.symbol) (hline : u.isText = false → u.line.standalone = false)
    (later : Flattens ns ts) : Flattens (n :: ns) (u :: ts) := by
  obtain ⟨symbol, line⟩ := u
  obtain rfl : symbol = t.symbol := hsym
  cases n with
  | text content =>
    cases hflat
    exact .text content line later
  | field name escaped =>
    cases hflat
    exact .field name escaped line later
  | block name inverted children => simp [Node.flatten] at hflat
  | comment content =>
    cases hflat
    exact .comment content (hline rfl) later
  | partialRef name w =>
    cases hflat
    obtain rfl : w = [] := hn.2
    exact .partialRef name (by simp [hline rfl]) later
  | foreign kind => exact hn.elim

theorem inline_of_mem_flatten (h : ∀ n, Occurs n ns → n.Inline) :
    ∀ t ∈ flatten ns, t.symbol.Inline := by
  induction ns using nodes_induction with
  | nil => exact fun t ht => absurd ht List.not_mem_nil
  | leaf n rest hleaf ih =>
    obtain ⟨t, hflat, hin, -⟩ := exists_flatten_eq (h n (.here rest)) hleaf
    intro u hu
    rw [flatten_leaf hflat] at hu
    rcases List.mem_cons.1 hu with rfl | hu
    · exact hin
    · exact ih (fun m hm => h m (.later n hm)) u hu
  | block name inverted children rest ihc ihr =>
    have hname : (Symbol.sectionOpen name inverted).Inline := (h _ (.here rest)).1
    intro u hu
    rw [flatten_block, List.mem_cons, List.mem_append, List.mem_cons] at hu
    rcases hu with rfl | hu | rfl | hu
    · exact hname
    · exact ihc (fun m hm => h m (.inside name inverted rest hm)) u hu
    · exact hname
    · exact ihr (fun m hm => h m (.later _ hm)) u hu

/-- The first token is a text if the first node is one. -/
theorem isText_of_head?_flatten (h : ∀ n, Occurs n ns → n.Inline) {t : Token}
    (ht : t ∈ (flatten ns).head?) : ∃ n ∈ ns.head?, t.isText = n.isText := by
  cases ns with
  | nil => cases ht
  | cons n rest =>
    refine ⟨n, rfl, ?_⟩
    by_cases hblock : ∃ name inverted children, n = .block name inverted children
    · obtain ⟨name, inverted, children, rfl⟩ := hblock
      rw [flatten_block] at ht
      cases ht
      rfl
    · obtain ⟨u, hflat, -, htext⟩ := exists_flatten_eq (h n (.here rest))
        fun name inverted children hn => hblock ⟨name, inverted, children, hn⟩
      rw [flatten_leaf hflat] at ht
      cases ht
      exact htext

theorem isChain_flatten (h : ∀ n, Occurs n ns → n.Inline) (hsep : ns.IsChain Node.Separate) :
    (flatten ns).IsChain Token.Separate := by
  induction ns using nodes_induction with
  | nil => exact List.isChain_nil
  | leaf n rest hleaf ih =>
    have hrest : ∀ m, Occurs m rest → m.Inline := fun m hm => h m (.later n hm)
    obtain ⟨t, hflat, -, htext⟩ := exists_flatten_eq (h n (.here rest)) hleaf
    obtain ⟨hnext, hchain⟩ := List.isChain_cons.1 hsep
    rw [flatten_leaf hflat]
    refine List.isChain_cons.2 ⟨fun u hu ht => ?_, ih hrest hchain⟩
    obtain ⟨m, hm, hu⟩ := isText_of_head?_flatten hrest hu
    rw [hu]
    exact hnext m hm (htext ▸ ht)
  | block name inverted children rest ihc ihr =>
    have hin : (Node.block name inverted children).Inline := h _ (.here rest)
    have hbody := ihc (fun m hm => h m (.inside name inverted rest hm)) hin.2
    have hrest := ihr (fun m hm => h m (.later _ hm)) (List.isChain_cons.1 hsep).2
    rw [flatten_block]
    -- neither of the section's tags is a text
    refine List.isChain_cons.2 ⟨fun u _ ht => (nomatch ht), ?_⟩
    refine hbody.append (List.isChain_cons.2 ⟨fun u _ ht => (nomatch ht), hrest⟩) ?_
    intro u _ v hv _
    cases hv
    rfl

/-- **Tokens with the symbols of a tree**, none of whose tags has its line for itself, are the tree laid
out. -/
theorem flattens_of_symbols (h : ∀ n, Occurs n ns → n.Inline)
    (hsym : us.map Token.symbol = (flatten ns).map Token.symbol)
    (hline : ∀ u ∈ us, u.isText = false → u.line.standalone = false) : Flattens ns us := by
  induction ns using nodes_induction generalizing us with
  | nil =>
    obtain rfl : us = [] := by simpa [flatten] using hsym
    exact .nil
  | leaf n rest hleaf ih =>
    have hn := h n (.here rest)
    obtain ⟨t, hflat, -, -⟩ := exists_flatten_eq hn hleaf
    rw [flatten_leaf hflat, List.map_cons] at hsym
    obtain ⟨u, vs, rfl, hu, hvs⟩ := List.map_eq_cons_iff.1 hsym
    have hrest := ih (fun m hm => h m (.later n hm)) hvs
      fun u hu => hline u (List.mem_cons_of_mem _ hu)
    exact .leaf hn hflat hu (hline u List.mem_cons_self) hrest
  | block name inverted children rest ihc ihr =>
    rw [flatten_block, List.map_cons, List.map_append, List.map_cons] at hsym
    obtain ⟨⟨opening, line⟩, vs, rfl, rfl, hvs⟩ := List.map_eq_cons_iff.1 hsym
    obtain ⟨body, later, rfl, hbody, hlater⟩ := List.map_eq_append_iff.1 hvs
    obtain ⟨⟨closing, close⟩, after, rfl, rfl, hafter⟩ := List.map_eq_cons_iff.1 hlater
    refine .block name inverted line (hline ⟨.sectionClose name, close⟩ (by simp) rfl) ?_ ?_
    · exact ihc (fun m hm => h m (.inside name inverted rest hm)) hbody
        fun u hu => hline u (by simp [hu])
    · exact ihr (fun m hm => h m (.later _ hm)) hafter fun u hu => hline u (by simp [hu])

/-- **Reading undoes writing.**  A tree that can be written on one line, written out as a template in any
of its spellings, is what the template is parsed to. -/
theorem parse_of_spells (hns : Inline ns) (hs : Spells s ns) : (parse s).outcome = .ok ns := by
  obtain ⟨parts, h, rfl⟩ := hs
  have hflat := inline_of_mem_flatten hns.nodes
  have hchain := isChain_flatten hns.nodes hns.separate
  obtain ⟨k, rest, rfl, hblank⟩ := hns.starts
  have hk : (Node.text k).Inline := hns.nodes _ (.here rest)
  have hout : flatten (.text k :: rest) = ⟨.text k, {}⟩ :: flatten rest := rfl
  rw [hout] at h hflat hchain
  cases h with
  | @cons _ part _ parts hpart h =>
    obtain rfl := List.mem_singleton.1 hpart
    have hlead : Leads part true := hk.leads fun _ => hblank
    obtain ⟨hnext, hchain⟩ := List.isChain_cons.1 hchain
    obtain ⟨us, hscan, hsym, hline⟩ := scan_spelled h
      (fun t ht => hflat t (List.mem_cons_of_mem _ ht)) hchain hlead fun _ t ht => hnext t ht rfl
    have hsame : us.map Token.symbol = (flatten (.text part :: rest)).map Token.symbol := by
      rw [hsym, hout]
      simp [Symbol.ofText, hk.1]
    refine outcome_parse_eq_ok_iff.2 ⟨us, hscan, ?_⟩
    exact build_of_flattens (flattens_of_symbols hns.nodes hsame hline)

/-- Sections of one name inside one another, a comment over two lines, and both spellings of a field
before a text that starts with a closing brace. -/
theorem parse_of_spells_nested :
    let b := "b".toList
    let ns : List Node := [.text " a ".toList,
      .block b false [.field "c".toList false, .text ['}'],
        .block b true [.comment ['{', '\n'], .field "x.y".toList true], .field ['{'] false],
      .partialRef "p".toList []]
    let parts := [" a ", "{{#b}}", "{{{c}}}", "\x7d", "{{^b}}", "\x7b\x7b!\x7b\n\x7d\x7d", "{{x.y}}",
      "{{/b}}", "\x7b\x7b&\x7b\x7d\x7d", "{{/b}}", "{{>p}}"].map String.toList
    Inline ns ∧ Spells parts.flatten ns ∧ (parse parts.flatten).outcome = .ok ns := by
  intro b ns parts
  have hns : Inline ns := by
    refine ⟨⟨_, _, rfl, 'a', by decide, by decide⟩, ?_, ?_⟩
    · simp [ns, Node.Separate, Node.isText]
    · simp [ns, b, occurs_cons_iff, not_occurs_nil, Node.children, or_imp, forall_and, Node.Inline,
        Symbol.Inline, Node.Separate, Node.isText, Text.strip, Text.isBlank, Text.blankRanges]
  have hs : Spells parts.flatten ns := by
    refine ⟨parts, ?_, rfl⟩
    simp [ns, b, parts, flatten, Node.flatten, Symbol.spellings, inBraces]
  exact ⟨hns, hs, parse_of_spells hns hs⟩

end Mustache
