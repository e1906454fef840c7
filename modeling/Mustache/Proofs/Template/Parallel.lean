import Mustache.Proofs.Template.Margin

/-!
# Templates side by side

Two token lists run in parallel if they differ in their texts, and in what stands before their tags
on a line, and in nothing else (`Token.Parallel`).  Closing tags are found at the same places then
(`Token.Parallel.splitClose`), so the trees of such lists are parallel as well, or the same section
has no closing tag (`Token.Parallel.build`).  How the texts and the margins differ is a parameter of
both relations.
-/

namespace Mustache

open Outcome

/-! ### Definitions -/

/-- **Tags alike**: both mean the same and have a line for themselves, or not; if they have, what
stands before them on it is related. -/
structure Token.Matches (P : Text → Text → Prop) (t u : Token) : Prop where
  symbol : t.symbol = u.symbol
  standalone : t.line.standalone = u.line.standalone
  margin : t.line.standalone = true → P t.line.preceding u.line.preceding

/-- **Tokens in parallel**: texts related by `Q`, one of which may be empty, and tags alike. -/
inductive Token.Parallel (Q P : Text → Text → Prop) : List Token → List Token → Prop
  | nil : Parallel Q P [] []
  | text {a b : Text} {as bs ts us : List Token} (has : IsTextOf a as) (hbs : IsTextOf b bs)
      (h : Q a b) (later : Parallel Q P ts us) : Parallel Q P (as ++ ts) (bs ++ us)
  | tag {t u : Token} {ts us : List Token} (h : t.Matches P u)
      (htag : ∀ content, t.symbol ≠ .text content) (later : Parallel Q P ts us) :
      Parallel Q P (t :: ts) (u :: us)

/-- **Trees in parallel**: texts related by `Q`, one of which may be empty, and the same nodes apart
from the margins of partials, which are related by `P` or empty. -/
inductive Node.Parallel (Q P : Text → Text → Prop) : List Node → List Node → Prop
  | nil : Parallel Q P [] []
  | text {a b : Text} {as bs : List Token} {ns ms : List Node} (has : IsTextOf a as)
      (hbs : IsTextOf b bs) (h : Q a b) (later : Parallel Q P ns ms) :
      Parallel Q P (as.flatMap Token.leaves ++ ns) (bs.flatMap Token.leaves ++ ms)
  | field (name : Text) (escaped : Bool) {ns ms : List Node} (later : Parallel Q P ns ms) :
      Parallel Q P (.field name escaped :: ns) (.field name escaped :: ms)
  | comment (content : Text) {ns ms : List Node} (later : Parallel Q P ns ms) :
      Parallel Q P (.comment content :: ns) (.comment content :: ms)
  | partialRef (name : Text) {v w : Text} {ns ms : List Node} (h : v = [] ∧ w = [] ∨ P v w)
      (later : Parallel Q P ns ms) :
      Parallel Q P (.partialRef name v :: ns) (.partialRef name w :: ms)
  | block (name : Text) (inverted : Bool) {children children' ns ms : List Node}
      (inside : Parallel Q P children children') (later : Parallel Q P ns ms) :
      Parallel Q P (.block name inverted children :: ns) (.block name inverted children' :: ms)

/-- Two cuts at a closing tag, with parallel tokens on both sides of it. -/
structure Split.Parallel (Q P : Text → Text → Prop) (s s' : Split) : Prop where
  body : Token.Parallel Q P s.body s'.body
  after : Token.Parallel Q P s.after s'.after

variable {Q P : Text → Text → Prop} {ts us as bs : List Token} {ns ms : List Node} {t u : Token}
  {s s' : Split} {name a b : Text} {depth : Nat}

/-! ### Closing tags -/

theorem Token.Matches.closes_eq (h : t.Matches P u) (name : Text) :
    t.closes name = u.closes name := by
  unfold Token.closes
  rw [h.symbol]

theorem Token.Matches.opens_eq (h : t.Matches P u) (name : Text) :
    t.opens name = u.opens name := by
  unfold Token.opens
  rw [h.symbol]

/-- The closing tag is found behind a text as it is without the text. -/
theorem splitClose_text_append (has : IsTextOf a as) (depth : Nat) (ts : List Token) :
    splitClose name depth (as ++ ts) = (splitClose name depth ts).map (Split.lead as) := by
  have hleaves := isLeaf_of_isTextOf has
  rw [splitClose_append_of_none (splitClose_of_leaves hleaves depth), net_of_leaves hleaves]
  simp

theorem rel_map {α β : Type} {R S : α → β → Prop} {x : Option α} {y : Option β} {f : α → α}
    {g : β → β} (h : Option.Rel R x y) (hfg : ∀ a b, R a b → S (f a) (g b)) :
    Option.Rel S (x.map f) (y.map g) := by
  cases h with
  | none => exact .none
  | some h => exact .some (hfg _ _ h)

theorem eq_none_of_rel {α β : Type} {R : α → β → Prop} {y : Option β}
    (h : Option.Rel R none y) : y = none := by
  cases h
  rfl

theorem exists_of_rel_some {α β : Type} {R : α → β → Prop} {a : α} {y : Option β}
    (h : Option.Rel R (some a) y) : ∃ b, y = some b ∧ R a b := by
  cases h with
  | some h => exact ⟨_, rfl, h⟩

/-- **A closing tag** is found in both lists, with parallel tokens on both its sides, or in none. -/
theorem Token.Parallel.splitClose (h : Token.Parallel Q P ts us) (name : Text) (depth : Nat) :
    Option.Rel (Split.Parallel Q P) (splitClose name depth ts) (splitClose name depth us) := by
  induction h generalizing depth with
  | nil => exact .none
  | text has hbs hQ later ih =>
    rw [splitClose_text_append has, splitClose_text_append hbs]
    exact rel_map (ih depth) fun s s' hs => ⟨.text has hbs hQ hs.body, hs.after⟩
  | @tag t u ts us ht htag later ih =>
    have hpush : ∀ d, Option.Rel (Split.Parallel Q P)
        ((Mustache.splitClose name d ts).map (Split.push t))
        ((Mustache.splitClose name d us).map (Split.push u)) :=
      fun d => rel_map (ih d) fun s s' hs => ⟨.tag ht htag hs.body, hs.after⟩
    simp only [Mustache.splitClose, ← ht.closes_eq, ← ht.opens_eq]
    split
    · cases depth with
      | zero => exact .some ⟨.nil, later⟩
      | succ depth => exact hpush depth
    · exact hpush _

/-! ### Trees -/

/-- Tags alike stand for the same nodes, apart from the margin of a partial. -/
theorem Node.Parallel.leaves (h : t.Matches P u) (htag : ∀ content, t.symbol ≠ .text content)
    (later : Node.Parallel Q P ns ms) : Node.Parallel Q P (t.leaves ++ ns) (u.leaves ++ ms) := by
  unfold Token.leaves
  rw [← h.symbol, ← h.standalone]
  cases hsym : t.symbol with
  | text content => exact absurd hsym (htag content)
  | field name escaped => exact .field name escaped later
  | sectionOpen name inverted => exact later
  | sectionClose name => exact later
  | comment content =>
    cases hstand : t.line.standalone with
    | true => exact later
    | false => exact .comment content later
  | partialRef name =>
    cases hstand : t.line.standalone with
    | true => exact .partialRef name (.inr (h.margin hstand)) later
    | false => exact .partialRef name (.inl ⟨rfl, rfl⟩) later

/-- **Parallel tokens build parallel trees**, if nothing is to trim, or leave one section open. -/
theorem Token.Parallel.build (h : Token.Parallel Q P ts us) (hts : ts.IsChain Token.Apart)
    (hus : us.IsChain Token.Apart) :
    Related (Node.Parallel Q P) (build ts) (build us) := by
  -- a text may be empty and bring no token, so the induction is on a bound and then on both lists
  generalize hn : ts.length = n
  replace hn := hn.le
  induction n using Nat.strong_induction_on generalizing ts us with
  | h n ih =>
    induction h with
    | nil =>
      rw [build_nil]
      exact .ok .nil
    | text has hbs hQ later ihlater =>
      rw [build_leaves_append (isLeaf_of_isTextOf has),
        build_leaves_append (isLeaf_of_isTextOf hbs)]
      rw [List.length_append] at hn
      have hlater := ihlater (List.isChain_append.1 hts).2.1 (List.isChain_append.1 hus).2.1
        (by omega)
      exact hlater.map fun ns ms hns => .text has hbs hQ hns
    | @tag t u ts us ht htag later ihlater =>
      rw [List.length_cons] at hn
      have hts' := (List.isChain_cons.1 hts).2
      have hus' := (List.isChain_cons.1 hus).2
      by_cases hopen : ∃ name inverted, t.symbol = .sectionOpen name inverted
      · obtain ⟨name, inverted, hsym⟩ := hopen
        have hsym' : u.symbol = .sectionOpen name inverted := ht.symbol ▸ hsym
        have hclose := later.splitClose name 0
        cases hs : Mustache.splitClose name 0 ts with
        | none =>
          rw [hs] at hclose
          rw [build_unclosed hsym hs, build_unclosed hsym' (eq_none_of_rel hclose)]
          exact .error rfl
        | some s =>
          rw [hs] at hclose
          obtain ⟨s', hs', hcut⟩ := exists_of_rel_some hclose
          have hlen := length_of_splitClose hs
          obtain ⟨hbody, hafter⟩ := isChain_of_splitClose hs hts'
          obtain ⟨hbody', hafter'⟩ := isChain_of_splitClose hs' hus'
          rw [build_block_of_isChain hsym hs hts', build_block_of_isChain hsym' hs' hus']
          refine (ih s.body.length (by omega) hcut.body hbody hbody' le_rfl).bind
            fun children children' _ _ hin => ?_
          exact (ih s.after.length (by omega) hcut.after hafter hafter' le_rfl).map
            fun ns ms hns => .block name inverted hin hns
      · have hsingle : ∀ name inverted, t.symbol ≠ .sectionOpen name inverted :=
          fun name inverted h => hopen ⟨name, inverted, h⟩
        rw [build_single hsingle, build_single (ht.symbol ▸ hsingle)]
        exact (ihlater hts' hus' (by omega)).map fun ns ms hns => hns.leaves ht htag

end Mustache
