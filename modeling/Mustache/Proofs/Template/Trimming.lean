import Mustache.Proofs.Template.Margin

/-!
# Building without trimming

Two passes may take the margin of a closing tag's line away: the scan, with the rest of the line, and
the builder, from the end of a section's body.  `buildUntrimmed` is the builder without its share,
and `Split.MadeOf` lists the cuts of which the builder trims the bodies.  On the tokens of a text
without a lone CR no body changes, at any depth, and both builders give the same tree
(`build_eq_untrimmed`).
-/

namespace Mustache

/-! ### Definitions -/

/-- The tree of a list of tokens, with the body of a section taken as it is. -/
def buildUntrimmed : List Token → Except Error (List Node)
  | [] => .ok []
  | t :: rest =>
    match t.symbol with
    | .sectionOpen name inverted =>
      match h : splitClose name 0 rest with
      | none => .error (.unclosedSection name)
      | some s => do
        have := length_of_splitClose h
        let children ← buildUntrimmed s.body
        let later ← buildUntrimmed s.after
        return .block name inverted children :: later
    | _ => do
      let later ← buildUntrimmed rest
      return t.leaves ++ later
termination_by ts => ts.length

/-- The cut belongs to a section of the tokens, or to one inside the trimmed body of such a section:
the bodies of all these are trimmed when the tokens are built. -/
inductive Split.MadeOf : List Token → Split → Prop
  | here {t : Token} {rest : List Token} {name : Text} {inverted : Bool} {s : Split}
    (opens : t.symbol = .sectionOpen name inverted) (cut : splitClose name 0 rest = some s) :
    MadeOf (t :: rest) s
  | inside {t : Token} {rest : List Token} {name : Text} {inverted : Bool} {s s' : Split}
    (opens : t.symbol = .sectionOpen name inverted) (cut : splitClose name 0 rest = some s)
    (body : MadeOf s.trimmedBody s') : MadeOf (t :: rest) s'
  | behind {t : Token} {rest : List Token} {name : Text} {inverted : Bool} {s s' : Split}
    (opens : t.symbol = .sectionOpen name inverted) (cut : splitClose name 0 rest = some s)
    (after : MadeOf s.after s') : MadeOf (t :: rest) s'
  | later {t : Token} {rest : List Token} {s : Split}
    (single : ∀ name inverted, t.symbol ≠ .sectionOpen name inverted) (after : MadeOf rest s) :
    MadeOf (t :: rest) s

variable {t : Token} {ts rest : List Token} {s : Split} {name : Text} {inverted : Bool}

/-! ### The builder without trimming -/

theorem buildUntrimmed_nil : buildUntrimmed [] = .ok [] := by rw [buildUntrimmed]

theorem buildUntrimmed_single (ht : ∀ name inverted, t.symbol ≠ .sectionOpen name inverted) :
    buildUntrimmed (t :: rest) = (buildUntrimmed rest).map (t.leaves ++ ·) := by
  rw [buildUntrimmed]
  split
  · next h => exact absurd h (ht _ _)
  · cases buildUntrimmed rest <;> rfl

theorem buildUntrimmed_unclosed (ht : t.symbol = .sectionOpen name inverted)
    (hs : splitClose name 0 rest = none) :
    buildUntrimmed (t :: rest) = .error (.unclosedSection name) := by
  rw [buildUntrimmed]
  split
  · next n i h =>
    obtain ⟨rfl, rfl⟩ := Symbol.sectionOpen.inj (ht.symm.trans h)
    split
    · rfl
    · next h' => simp [hs] at h'
  · next h => exact absurd ht (h _ _)

theorem buildUntrimmed_block (ht : t.symbol = .sectionOpen name inverted)
    (hs : splitClose name 0 rest = some s) : buildUntrimmed (t :: rest) =
      (buildUntrimmed s.body).bind fun children =>
        (buildUntrimmed s.after).map (.block name inverted children :: ·) := by
  rw [buildUntrimmed]
  split
  · next n i h =>
    obtain ⟨rfl, rfl⟩ := Symbol.sectionOpen.inj (ht.symm.trans h)
    split
    · next h' => simp [hs] at h'
    · next s' h' =>
      obtain rfl : s = s' := by simpa [hs] using h'
      cases buildUntrimmed s.body with
      | error e => rfl
      | ok children => cases buildUntrimmed s.after <;> rfl
  · next h => exact absurd ht (h _ _)

/-! ### Nothing to trim -/

/-- Where texts and closing tags are apart, no cut has anything to trim: its body and what stands
behind it are parts of the tokens, and so they keep texts and closing tags apart themselves. -/
theorem trimmedBody_of_madeOf (hmade : Split.MadeOf ts s) (h : ts.IsChain Token.Apart) :
    s.trimmedBody = s.body := by
  induction hmade with
  | here opens cut =>
    rw [List.isChain_cons] at h
    exact trimmedBody_of_isChain cut h.2
  | inside opens cut body ih =>
    rw [List.isChain_cons] at h
    obtain ⟨hbody, -⟩ := isChain_of_splitClose cut h.2
    apply ih
    rwa [trimmedBody_of_isChain cut h.2]
  | behind opens cut after ih =>
    rw [List.isChain_cons] at h
    obtain ⟨-, hafter⟩ := isChain_of_splitClose cut h.2
    exact ih hafter
  | later single after ih =>
    rw [List.isChain_cons] at h
    exact ih h.2

/-- Where texts and closing tags are apart, trimming makes no difference to the tree. -/
theorem build_of_isChain (h : ts.IsChain Token.Apart) : build ts = buildUntrimmed ts := by
  induction ts using sections_induction with
  | nil => rw [build_nil, buildUntrimmed_nil]
  | single t rest ht ih =>
    rw [List.isChain_cons] at h
    rw [build_single ht, buildUntrimmed_single ht, ih h.2]
  | unclosed t rest name inverted ht hs =>
    rw [build_unclosed ht hs, buildUntrimmed_unclosed ht hs]
  | block t rest name inverted s ht hs ihbody ihafter =>
    rw [List.isChain_cons] at h
    obtain ⟨hbody, hafter⟩ := isChain_of_splitClose hs h.2
    rw [build_block_of_isChain ht hs h.2, buildUntrimmed_block ht hs, ihbody hbody, ihafter hafter]

/-- **Trimming is idle on scanned tokens**: in a template without a lone CR, read with markers free of
blanks, the scan has taken all margins of closing tags along, and what the builder looks at in front
of a closing tag with its line for itself is the end of an earlier line. -/
theorem build_eq_untrimmed {template : Text} {pair : Delimiter} {tokens : List Token}
    (ht : Text.NoLoneReturn template) (hp : pair.Solid)
    (h : (tokenize template pair).outcome = .ok tokens) :
    (∀ s, Split.MadeOf tokens s → s.trimmedBody = s.body) ∧
      build tokens = buildUntrimmed tokens := by
  have hchain : tokens.IsChain Token.Apart := isChain_of_scan hp ht h
  constructor
  · intro s hmade
    exact trimmedBody_of_madeOf hmade hchain
  · exact build_of_isChain hchain

/-- The change of markers leaves no token, so the last text of the body is the line above it; that
line ends with a blank and LF, and the margin of the closing tag is a blank. -/
theorem build_eq_untrimmed_change :
    ∃ tokens, (tokenize "{{#a}}\nx \n {{=<% %>=}}\n <%/a%>".toList).outcome = .ok tokens ∧
      (∃ s, Split.MadeOf tokens s ∧ s.trims) ∧
      (∀ s, Split.MadeOf tokens s → s.trimmedBody = s.body) ∧
      build tokens = buildUntrimmed tokens := by
  have h : (tokenize "{{#a}}\nx \n {{=<% %>=}}\n <%/a%>".toList).outcome = .ok
      [{ symbol := .sectionOpen "a".toList false,
          line := { breakAfter := true, firstOnLine := true, lastOnLine := true } },
        { symbol := .text "x \n".toList, line := { firstOnLine := true } },
        { symbol := .sectionClose "a".toList,
          line := { preceding := " ".toList, firstOnLine := true, lastOnLine := true,
                    atEnd := true } }] := by decide +kernel
  have hreturn : Text.NoLoneReturn "{{#a}}\nx \n {{=<% %>=}}\n <%/a%>".toList := by
    simp [Text.noLoneReturn_cons_iff, Text.noLoneReturn_nil]
  refine ⟨_, h, ⟨_, .here rfl rfl, ?_⟩, build_eq_untrimmed hreturn Delimiter.solid_braces h⟩
  decide

end Mustache
