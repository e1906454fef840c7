import Mustache.Proofs.Render.Faults
import Mustache.Proofs.Value.Lookup

/-!
# Renderings that end

Nothing but the nesting of partials can keep a rendering from its end, and an allowance is how much of
it there may be.  `Renderer.Suffices` says when an allowance is enough: each expansion that takes place
leaves enough for the partials that its text names.  Then a larger allowance makes no difference
(`Suffices.expand_eq`), and the allowance is never what a rendering ends for (`Suffices.ne_endless`).
A bound on nested partials is such an allowance (`renderTemplate_bounded`), and so is a rank that falls
from each partial to those it names (`renderTemplate_ranked`).  The keys that stand in the texts of the
partials give such a rank, if they go one way only (`rankedBy_of_keys`).
-/

namespace Mustache

open Outcome

/-! ### Definitions -/

/-- **Enough allowance** for the partial `name` with the margin `w`, and `depth` expansions around it:
if it is expanded, what is left is enough for the partials in its text. -/
structure Renderer.Suffices (r : Renderer) (enough : Nat → Nat → Text → Text → Prop) : Prop where
  left {allowance depth : Nat} {name w text : Text} (h : enough allowance depth name w)
    (hname : r.partialText? name = some text) (hx : r.exceeds depth = none) :
    ∃ rest, allowance = rest + 1 ∧ ∀ nodes, (parse (Text.indent w text)).outcome = .ok nodes →
      ∀ inner v, Occurs (.partialRef inner v) nodes → enough rest (depth + 1) inner v

/-- **The rendering ends** with `run`, and `n` expansions nested in one another are all that it needs:
`run` is what every allowance from `n` on gives, and it does not end for want of allowance. -/
structure Renderer.EndsWithin (r : Renderer) (n : Nat) (template : Text) (scope : Scope)
    (run : Run Text) : Prop where
  eq_run (allowance : Nat) (h : n ≤ allowance) : r.renderTemplate allowance template scope = run
  ne_endless : run.outcome ≠ .error .endless

/-- **A rank of the partials.**  Whatever margin its text gets, a partial names only partials of a lower
rank, and names without a text. -/
def Renderer.RankedBy (r : Renderer) (rank : Text → Nat) : Prop :=
  ∀ ⦃name text w : Text⦄ ⦃nodes : List Node⦄, r.partialText? name = some text → Text.IsMargin w →
    (parse (Text.indent w text)).outcome = .ok nodes →
    ∀ inner v, Occurs (.partialRef inner v) nodes →
      r.partialText? inner = none ∨ rank inner < rank name

/-- **A chain of nested expansions**: it leads from the partial `name`, with `depth` expansions around it,
to a partial `deep` with `d` expansions around it. -/
inductive Renderer.Chain (r : Renderer) : Nat → Text → Text → Nat → Text → Prop
  | one {depth : Nat} {name w text : Text} (hname : r.partialText? name = some text)
    (hx : r.exceeds depth = none) : r.Chain depth name w depth name
  | more {depth d : Nat} {name w text inner v deep : Text} {nodes : List Node}
    (hname : r.partialText? name = some text) (hx : r.exceeds depth = none)
    (hparse : (parse (Text.indent w text)).outcome = .ok nodes)
    (hn : Occurs (.partialRef inner v) nodes) (h : r.Chain (depth + 1) inner v d deep) :
    r.Chain depth name w d deep

variable {r : Renderer} {enough : Nat → Nat → Text → Text → Prop} {rank : Text → Nat}
  {allowance allowance' depth : Nat} {name w text template : Text} {scope : Scope}
  {context partials : Value} {limit : Int} {e : Error} {run : Run Text} {ns : List Node}

/-! ### Enough allowance -/

namespace Renderer.Suffices

/-- **Allowances that are enough** give the same expansion. -/
theorem expand_eq (hr : r.Suffices enough) (h : enough allowance depth name w)
    (h' : enough allowance' depth name w) (scope : Scope) :
    r.expand allowance depth name w scope = r.expand allowance' depth name w scope := by
  induction allowance generalizing allowance' depth name w scope with
  | zero =>
    refine expand_congr rfl rfl fun text hname hx => ?_
    obtain ⟨rest, hrest, -⟩ := hr.left h hname hx
    omega
  | succ allowance ih =>
    refine expand_congr rfl rfl fun text hname hx => ?_
    obtain ⟨rest, hrest, hin⟩ := hr.left h hname hx
    obtain ⟨rest', rfl, hin'⟩ := hr.left h' hname hx
    obtain rfl : allowance = rest := by omega
    rw [expand_succ hname hx, expand_succ hname hx]
    refine Traced.bind_congr fun _ _ => Traced.bind_congr fun nodes hnodes => ?_
    refine renderAll_congr (fun inner v hn => ?_) scope
    exact ih (hin nodes hnodes inner v hn) (hin' nodes hnodes inner v hn)

/-- **An allowance that is enough** is not what an expansion ends for. -/
theorem ne_endless (hr : r.Suffices enough) (h : enough allowance depth name w)
    (hfails : r.Fails allowance depth name w e) : e ≠ .endless := by
  induction hfails with
  | tooDeep hname hx => simp
  | endless hname hx =>
    obtain ⟨rest, hrest, -⟩ := hr.left h hname hx
    omega
  | malformed hname hx hparse =>
    rintro rfl
    exact absurd (isParseError_of_parse hparse) (by decide)
  | @within allowance _ _ _ _ inner v nodes _ hname hx hparse hn _ ih =>
    obtain ⟨rest, hrest, hin⟩ := hr.left h hname hx
    obtain rfl : allowance = rest := by omega
    exact ih (hin nodes hparse inner v hn)

/-- **A template ends** with what an allowance gives that is enough for its partials. -/
theorem endsWithin (hr : r.Suffices enough) {n : Nat}
    (h : ∀ allowance, n ≤ allowance → ∀ nodes, (parse template).outcome = .ok nodes →
      ∀ inner v, Occurs (.partialRef inner v) nodes → enough allowance 0 inner v)
    (scope : Scope) : r.EndsWithin n template scope (r.renderTemplate n template scope) where
  eq_run allowance hle := by
    refine Traced.bind_congr fun nodes hnodes => ?_
    refine renderAll_congr (fun inner v hn => ?_) scope
    exact hr.expand_eq (h allowance hle nodes hnodes inner v hn)
      (h n (Nat.le_refl n) nodes hnodes inner v hn)
  ne_endless hout := by
    rcases fails_of_renderTemplate hout with hparse | ⟨nodes, inner, v, hnodes, hn, hfails⟩
    · exact absurd (isParseError_of_parse hparse) (by decide)
    · exact hr.ne_endless (h n (Nat.le_refl n) nodes hnodes inner v hn) hfails rfl

end Renderer.Suffices

/-- Where no more expansions nest than `render` allows for, it gives the rendering that ends. -/
theorem Renderer.EndsWithin.render_eq {n : Nat}
    (h : r.EndsWithin n template { root := context } run) (hn : n ≤ nestingAllowance) :
    Mustache.render template context r = run := by
  rw [render_eq_renderTemplate]
  exact h.eq_run nestingAllowance hn

/-! ### Chains of expansions -/

/-- **Each expansion that a run notes** ends a chain. -/
theorem chain_of_mem_notes {deep : Text} {d : Nat}
    (h : .expanded deep d ∈ (r.expand allowance depth name w scope).notes) :
    r.Chain depth name w d deep := by
  induction allowance using Nat.strong_induction_on generalizing depth name w scope with
  | h allowance ih =>
    cases hname : r.partialText? name with
    | none =>
      rw [expand_of_missing hname] at h
      rcases Traced.mem_notes_bind.1 h with h | ⟨_, -, h⟩
      · cases List.mem_singleton.1 h
      · exact absurd h List.not_mem_nil
    | some text =>
      cases hx : r.exceeds depth with
      | some limit =>
        rw [expand_of_exceeds hname hx] at h
        exact absurd h List.not_mem_nil
      | none =>
        cases allowance with
        | zero =>
          rw [expand_zero hname hx] at h
          exact absurd h List.not_mem_nil
        | succ allowance =>
          rw [expand_succ hname hx] at h
          rcases Traced.mem_notes_bind.1 h with h | ⟨_, -, h⟩
          · cases List.mem_singleton.1 h
            exact .one hname hx
          · rcases Traced.mem_notes_bind.1 h with h | ⟨nodes, hnodes, h⟩
            · obtain ⟨p, hp⟩ := exists_pair_of_mem_notes_parse h
              cases hp
            · obtain ⟨inner, v, t, hn, h⟩ := exists_of_mem_notes_renderAll h
              exact .more hname hx hnodes hn (ih allowance (Nat.lt_succ_self allowance) h)

theorem chain_of_mem_notes_renderTemplate {deep : Text} {d : Nat}
    (h : .expanded deep d ∈ (r.renderTemplate allowance template scope).notes) :
    ∃ name w, r.Chain 0 name w d deep := by
  rcases Traced.mem_notes_bind.1 h with h | ⟨nodes, -, h⟩
  · obtain ⟨p, hp⟩ := exists_pair_of_mem_notes_parse h
    cases hp
  · obtain ⟨name, w, t, -, h⟩ := exists_of_mem_notes_renderAll h
    exact ⟨name, w, chain_of_mem_notes h⟩

/-- A chain starts at a name with a text. -/
theorem Renderer.Chain.partialText?_ne_none {deep : Text} {d : Nat}
    (h : r.Chain depth name w d deep) : r.partialText? name ≠ none := by
  cases h with
  | one hname _ => simp [hname]
  | more hname _ _ _ _ => simp [hname]

/-- A chain goes no deeper than there is room. -/
theorem Renderer.Chain.exceeds_eq_none {deep : Text} {d : Nat} (h : r.Chain depth name w d deep) :
    r.exceeds d = none := by
  induction h with
  | one hname hx => exact hx
  | more hname hx hparse hn h ih => exact ih

/-! ### Under a bound -/

/-- What the bound leaves is enough. -/
theorem suffices_of_bound (h : r.maxDepth = some limit) :
    r.Suffices fun allowance depth _ _ => limit ≤ depth + allowance where
  left {allowance depth name w text} henough _ hx := by
    have hroom : depth < limit := (exceeds_eq_none_iff h).1 hx
    refine ⟨allowance - 1, by omega, fun nodes _ inner v _ => ?_⟩
    omega

/-- **Under a bound every rendering ends**: with a text, a fault of parsing, or the bound met.  No more
expansions nest in one another than the bound says, and none at all under a negative one. -/
theorem renderTemplate_bounded (limit : Int) (partials : Value) (template : Text) (scope : Scope) :
    ∃ run, Renderer.EndsWithin ⟨partials, some limit⟩ limit.toNat template scope run ∧
      ((∃ s, run.outcome = .ok s) ∨ (∃ e, run.outcome = .error e ∧ e.isParseError = true) ∨
        ∃ name, run.outcome = .error (.depthExceeded name limit)) ∧
      ∀ (name : Text) (depth : Nat), .expanded name depth ∈ run.notes →
        (depth : Int) + 1 ≤ max limit 0 := by
  have hends : Renderer.EndsWithin ⟨partials, some limit⟩ limit.toNat template scope
      (Renderer.renderTemplate ⟨partials, some limit⟩ limit.toNat template scope) :=
    (suffices_of_bound rfl).endsWithin (fun allowance hle _ _ _ _ _ => by omega) scope
  refine ⟨_, hends, ?_, fun name depth h => ?_⟩
  · rcases outcome_renderTemplate_cases hends.ne_endless with h | h | ⟨inner, other, hmax, h⟩
    · exact .inl h
    · exact .inr (.inl h)
    · obtain rfl : limit = other := Option.some.inj hmax
      exact .inr (.inr ⟨inner, h⟩)
  · obtain ⟨outer, w, hchain⟩ := chain_of_mem_notes_renderTemplate h
    have hroom := (exceeds_eq_none_iff rfl).1 hchain.exceeds_eq_none
    omega

/-! ### With a rank -/

theorem exists_rank_lt (rank : Text → Nat) (ns : List Node) :
    ∃ n, ∀ name w, Occurs (.partialRef name w) ns → rank name < n := by
  induction ns using nodes_induction with
  | nil => exact ⟨0, fun name w h => absurd h (not_occurs_nil _)⟩
  | leaf m rest hleaf ih =>
    obtain ⟨n, hn⟩ := ih
    refine ⟨max n ((m.name?.map rank).getD 0 + 1), fun name w h => ?_⟩
    cases h with
    | here =>
      show rank name < max n (rank name + 1)
      omega
    | later _ h =>
      have hlt := hn name w h
      omega
    | inside outer inverted _ _ => exact absurd rfl (hleaf outer inverted _)
  | block outer inverted children rest ihc ihr =>
    obtain ⟨n, hn⟩ := ihc
    obtain ⟨m, hm⟩ := ihr
    refine ⟨max n m, fun name w h => ?_⟩
    cases h with
    | later _ h =>
      have hlt := hm name w h
      omega
    | inside _ _ _ h =>
      have hlt := hn name w h
      omega

/-- The partials that a template names have ranks below some number. -/
theorem exists_rank_lt_of_parse (rank : Text → Nat) (template : Text) :
    ∃ n, ∀ nodes, (parse template).outcome = .ok nodes →
      ∀ name w, Occurs (.partialRef name w) nodes → rank name < n := by
  cases hparse : (parse template).outcome with
  | error e => exact ⟨0, fun nodes h => nomatch h⟩
  | ok ns =>
    obtain ⟨n, hn⟩ := exists_rank_lt rank ns
    refine ⟨n, fun nodes h => ?_⟩
    cases h
    exact hn

/-- **A rank from levels of the keys.**  Partials that are texts under keys without blanks have a rank if
the keys that stand in a text, wherever they do, are of a lower level than its own key. -/
theorem rankedBy_of_keys {fields : List (Text × Value)} {bound : Option Int} (level : Text → Nat)
    (htexts : ∀ p ∈ fields, ∃ s, p.2 = .scalar s)
    (hkeys : ∀ p ∈ fields, p.1 ≠ [] ∧ ∀ c ∈ p.1, Text.isBlank c = false)
    (hlower : ∀ p ∈ fields, ∀ s ∈ p.2.text?, ∀ q ∈ fields, q.1 <:+: s → level q.1 < level p.1) :
    Renderer.RankedBy ⟨.mapping fields, bound⟩ fun name => level (Text.strip name) := by
  intro name text w nodes hname hw hnodes inner v hn
  have hmem := Value.mem_of_lookup_texts htexts hname
  cases hinner : Renderer.partialText? ⟨.mapping fields, bound⟩ inner with
  | none => exact .inl rfl
  | some text' =>
    have hmem' := Value.mem_of_lookup_texts htexts hinner
    obtain ⟨hne, hblank⟩ := hkeys _ hmem'
    have hstands : Text.strip inner <:+: Text.indent w text :=
      (Text.strip_isInfix inner).trans (infix_of_occurs_parse hnodes hn rfl)
    have hstands' : Text.strip inner <:+: text :=
      (Text.infix_indent_iff hne hblank fun c hc => (hw c hc).1).1 hstands
    exact .inr (hlower _ hmem text rfl _ hmem' hstands')

/-- More than the rank is enough. -/
theorem suffices_of_rankedBy (hrank : r.RankedBy rank) :
    r.Suffices fun allowance _ name w =>
      Text.IsMargin w ∧ (r.partialText? name = none ∨ rank name < allowance) where
  left {allowance depth name w text} henough hname _ := by
    obtain ⟨hw, hmissing | hlt⟩ := henough
    · rw [hname] at hmissing
      cases hmissing
    · refine ⟨allowance - 1, by omega, fun nodes hnodes inner v hn => ?_⟩
      refine ⟨isMargin_of_occurs_parse hnodes hn, ?_⟩
      refine (hrank hname hw hnodes inner v hn).imp_right fun hlower => ?_
      omega

theorem Renderer.Chain.le_rank {deep : Text} {d : Nat} (hrank : r.RankedBy rank)
    (hw : Text.IsMargin w) (h : r.Chain depth name w d deep) : d ≤ depth + rank name := by
  induction h with
  | one hname hx => omega
  | @more depth d name w text inner v deep nodes hname hx hparse hn h ih =>
    have hdeep := ih (isMargin_of_occurs_parse hparse hn)
    rcases hrank hname hw hparse inner v hn with hmissing | hlower
    · -- the chain goes on at `inner`, so that has a text
      exact absurd hmissing h.partialText?_ne_none
    · omega

theorem nestingAll_le {inner : Text → Text → Scope → Nat} {n : Nat}
    (h : ∀ name w scope, Occurs (.partialRef name w) ns → inner name w scope ≤ n) (scope : Scope) :
    nestingAll inner ns scope ≤ n := by
  induction ns using nodes_induction generalizing scope with
  | nil => exact Nat.zero_le n
  | leaf m rest hleaf ih =>
    have hrest := ih (fun name w t hn => h name w t (.later m hn)) scope
    have hm : m.nesting inner scope ≤ n := by
      cases m with
      | block name inverted children => exact absurd rfl (hleaf name inverted children)
      | partialRef name w => exact h name w scope (.here rest)
      | text content => exact Nat.zero_le n
      | field name escaped => exact Nat.zero_le n
      | comment content => exact Nat.zero_le n
      | foreign kind => exact Nat.zero_le n
    exact Nat.max_le.2 ⟨hm, hrest⟩
  | block name inverted children rest ihc ihr =>
    have hrest := ihr (fun name w t hn => h name w t (.later _ hn)) scope
    have hbody := ihc fun inner v t hn => h inner v t (.inside name inverted rest hn)
    have hbodies : ∀ l : List Scope,
        l.foldr (fun body deepest => max (nestingAll inner children body) deepest) 0 ≤ n := by
      intro l
      induction l with
      | nil => exact Nat.zero_le n
      | cons body l ih => exact Nat.max_le.2 ⟨hbody body, ih⟩
    exact Nat.max_le.2 ⟨hbodies _, hrest⟩

/-- **The rank bounds the nesting** of expansions that starts at a partial. -/
theorem nesting_le_rank (hrank : r.RankedBy rank) (hw : Text.IsMargin w) (allowance : Nat)
    (scope : Scope) : r.nesting allowance name w scope ≤ rank name + 1 := by
  induction allowance generalizing name w scope with
  | zero =>
    cases hname : r.partialText? name with
    | none =>
      rw [nesting_of_missing hname]
      omega
    | some text =>
      rw [nesting_of_text hname]
      exact Nat.le_add_left 1 _
  | succ allowance ih =>
    cases hname : r.partialText? name with
    | none =>
      rw [nesting_of_missing hname]
      omega
    | some text =>
      rw [nesting_of_text hname, Nat.add_comm]
      refine Nat.add_le_add_right ?_ 1
      show nestingText (r.nesting allowance) (Text.indent w text) scope ≤ rank name
      unfold nestingText
      cases hparse : (parse (Text.indent w text)).outcome with
      | error e => exact Nat.zero_le _
      | ok nodes =>
        refine nestingAll_le (fun inner v t hn => ?_) scope
        have hinner : r.nesting allowance inner v t ≤ rank inner + 1 :=
          ih (isMargin_of_occurs_parse hparse hn) t
        rcases hrank hname hw hparse inner v hn with hmissing | hlower
        · rw [nesting_of_missing hmissing]
          omega
        · omega

/-- **With a rank every rendering ends**, without a bound: with a text or a fault of parsing.  A chain of
nested expansions that starts at a partial of rank `k` is no longer than `k + 1`. -/
theorem renderTemplate_ranked {partials : Value} {rank : Text → Nat}
    (hrank : Renderer.RankedBy ⟨partials, none⟩ rank) :
    (∀ template scope, ∃ n run, Renderer.EndsWithin ⟨partials, none⟩ n template scope run ∧
        ((∃ s, run.outcome = .ok s) ∨ ∃ e, run.outcome = .error e ∧ e.isParseError = true)) ∧
      ∀ allowance depth name w scope, Text.IsMargin w →
        Renderer.nesting ⟨partials, none⟩ allowance name w scope ≤ rank name + 1 ∧
          ∀ deep d, .expanded deep d ∈
              (Renderer.expand ⟨partials, none⟩ allowance depth name w scope).notes →
            d ≤ depth + rank name := by
  refine ⟨fun template scope => ?_, fun allowance depth name w scope hw => ⟨?_, fun deep d h => ?_⟩⟩
  · obtain ⟨n, hn⟩ := exists_rank_lt_of_parse rank template
    have hends : Renderer.EndsWithin ⟨partials, none⟩ n template scope
        (Renderer.renderTemplate ⟨partials, none⟩ n template scope) := by
      refine (suffices_of_rankedBy hrank).endsWithin ?_ scope
      intro allowance hle nodes hnodes inner v hin
      have hlower := hn nodes hnodes inner v hin
      exact ⟨isMargin_of_occurs_parse hnodes hin, .inr (by omega)⟩
    refine ⟨n, _, hends, ?_⟩
    rcases outcome_renderTemplate_cases hends.ne_endless with h | h | ⟨inner, other, hmax, -⟩
    · exact .inl h
    · exact .inr h
    · cases hmax
  · exact nesting_le_rank hrank hw allowance scope
  · exact (chain_of_mem_notes h).le_rank hrank hw

/-- A partial that is expanded for each item of a sequence in another partial: of rank 0 and 1. -/
theorem renderTemplate_ranked_items :
    let partials : Value := .mapping
      [("a".toList, .scalar "{{#s}}{{>b}}{{/s}}".toList), ("b".toList, .scalar "x".toList)]
    let scope : Scope := { root := .mapping [("s".toList, .sequence [.null, .null])] }
    let rank (name : Text) : Nat := if Text.strip name = "a".toList then 1 else 0
    Renderer.RankedBy ⟨partials, none⟩ rank ∧
      (∃ n run, Renderer.EndsWithin ⟨partials, none⟩ n " {{>a}}\n".toList scope run) ∧
      ∀ allowance, Renderer.nesting ⟨partials, none⟩ allowance "a".toList [] scope ≤ 2 := by
  intro partials scope rank
  have hrank : Renderer.RankedBy ⟨partials, none⟩ rank :=
    rankedBy_of_keys (fun key => if key = "a".toList then 1 else 0) (by simp)
      (by simp [Text.isBlank, Text.blankRanges]) (by decide)
  obtain ⟨hends, hchains⟩ := renderTemplate_ranked hrank
  obtain ⟨n, run, hrun, -⟩ := hends " {{>a}}\n".toList scope
  exact ⟨hrank, ⟨n, run, hrun⟩,
    fun allowance => (hchains allowance 0 _ [] scope Text.isMargin_nil).1⟩

end Mustache
