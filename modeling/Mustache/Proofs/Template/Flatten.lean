import Mustache.Proofs.Template.Origin

/-!
# Trees laid out flat

A tree is laid out in source order: a section becomes its opening tag, what it encloses and its closing
tag (`flatten`).  `Flattens` says which tokens are a tree laid out, and leaves open every line that
`build` does not look at.  A search for a closing tag passes over tokens laid out from a tree and finds
nothing in them, whatever names they hold (`splitClose_append_of_flattens`), so each opening tag gets
back its own closing tag and the tokens build to the tree (`build_of_flattens`).
-/

namespace Mustache

/-! ### Definitions -/

/-- The line of a tag that has it for itself, behind the margin `w`. -/
def LineInfo.alone (w : Text) : LineInfo :=
  { preceding := w, breakAfter := true, firstOnLine := true, lastOnLine := true }

mutual

/-- The tokens of a node; an element that is no piece of a template has none. -/
def Node.flatten : Node → List Token
  | .text content => [⟨.text content, {}⟩]
  | .field name escaped => [⟨.field name escaped, {}⟩]
  | .block name inverted children =>
    ⟨.sectionOpen name inverted, {}⟩ :: (Mustache.flatten children ++ [⟨.sectionClose name, {}⟩])
  | .comment content => [⟨.comment content, {}⟩]
  | .partialRef name indentation => [⟨.partialRef name, .alone indentation⟩]
  | .foreign _ => []

/-- The tokens of a tree, in source order.  The tag of a partial has a line for itself, behind the
margin of the partial; no other tag has. -/
def flatten : List Node → List Token
  | [] => []
  | n :: rest => n.flatten ++ flatten rest

end

/-- **The tokens are the tree laid out.**  A comment and a closing tag do not have a line for themselves,
and a partial takes its margin from the line of its tag. -/
inductive Flattens : List Node → List Token → Prop
  | nil : Flattens [] []
  | text {ns : List Node} {ts : List Token} (content : Text) (line : LineInfo)
      (later : Flattens ns ts) : Flattens (.text content :: ns) (⟨.text content, line⟩ :: ts)
  | field {ns : List Node} {ts : List Token} (name : Text) (escaped : Bool) (line : LineInfo)
      (later : Flattens ns ts) :
      Flattens (.field name escaped :: ns) (⟨.field name escaped, line⟩ :: ts)
  | block {children ns : List Node} {body ts : List Token} (name : Text) (inverted : Bool)
      (line : LineInfo) {close : LineInfo} (inline : close.standalone = false)
      (inner : Flattens children body) (later : Flattens ns ts) :
      Flattens (.block name inverted children :: ns)
        (⟨.sectionOpen name inverted, line⟩ :: (body ++ ⟨.sectionClose name, close⟩ :: ts))
  | comment {ns : List Node} {ts : List Token} (content : Text) {line : LineInfo}
      (inline : line.standalone = false) (later : Flattens ns ts) :
      Flattens (.comment content :: ns) (⟨.comment content, line⟩ :: ts)
  | partialRef {ns : List Node} {ts : List Token} (name : Text) {indentation : Text} {line : LineInfo}
      (margin : indentation = if line.standalone then line.preceding else [])
      (later : Flattens ns ts) :
      Flattens (.partialRef name indentation :: ns) (⟨.partialRef name, line⟩ :: ts)

variable {name : Text} {t : Token} {ts us rest : List Token} {ns : List Node} {line : LineInfo}
  {inverted : Bool}

theorem flatten_block (name : Text) (inverted : Bool) (children rest : List Node) :
    flatten (.block name inverted children :: rest) = ⟨.sectionOpen name inverted, {}⟩ ::
      (flatten children ++ ⟨.sectionClose name, {}⟩ :: flatten rest) := by
  simp [flatten, Node.flatten]

/-! ### Passing over a tree -/

theorem splitClose_cons_leaf (ht : t.isLeaf) (depth : Nat) :
    splitClose name depth (t :: rest) = (splitClose name depth rest).map (Split.push t) := by
  have hopen : t.opens name = false := by
    rw [← Bool.not_eq_true, opens_eq_true_iff]
    rintro ⟨inverted, h⟩
    exact ht.1 name inverted h
  simp [splitClose, closes_of_leaf ht, hopen]

/-- **A search passes over a tree.**  Every section that is opened in it is closed in it. -/
theorem splitClose_append_of_flattens (h : Flattens ns ts) (name : Text) (depth : Nat)
    (us : List Token) :
    splitClose name depth (ts ++ us) = (splitClose name depth us).map (Split.lead ts) := by
  have hnone : Split.lead [] = id := rfl
  -- a token on its own goes in front of what the search finds
  have hleaf : ∀ {t : Token} {ts : List Token} {depth : Nat} {us : List Token}, t.isLeaf →
      splitClose name depth (ts ++ us) = (splitClose name depth us).map (Split.lead ts) →
      splitClose name depth (t :: ts ++ us) =
        (splitClose name depth us).map (Split.lead (t :: ts)) := by
    intro t ts depth us ht h
    rw [List.cons_append, splitClose_cons_leaf ht, h, Option.map_map]
    rfl
  induction h generalizing depth us with
  | nil => rw [List.nil_append, hnone, Option.map_id_fun, id]
  | text content line later ih => exact hleaf ⟨by simp, by simp⟩ (ih depth us)
  | field n escaped line later ih => exact hleaf ⟨by simp, by simp⟩ (ih depth us)
  | comment content inline later ih => exact hleaf ⟨by simp, by simp⟩ (ih depth us)
  | partialRef n margin later ih => exact hleaf ⟨by simp, by simp⟩ (ih depth us)
  | @block children ns body ts n inverted line close inline inner later ihb iha =>
    -- inside a section of the name one more is open, and its closing tag closes that one
    have hopen : ∀ later, splitClose name depth (⟨.sectionOpen n inverted, line⟩ :: later) =
        (splitClose name (if n = name then depth + 1 else depth) later).map
          (Split.push ⟨.sectionOpen n inverted, line⟩) := by
      simp [splitClose, Token.closes, Token.opens]
    have hclose : ∀ later, splitClose name (if n = name then depth + 1 else depth)
          (⟨.sectionClose n, close⟩ :: later) =
        (splitClose name depth later).map (Split.push ⟨.sectionClose n, close⟩) := by
      by_cases hn : n = name <;> simp [splitClose, Token.closes, Token.opens, hn]
    have hout : ∀ s : Split, ((((s.lead ts).push ⟨.sectionClose n, close⟩).lead body).push
        ⟨.sectionOpen n inverted, line⟩) =
          s.lead (⟨.sectionOpen n inverted, line⟩ :: (body ++ ⟨.sectionClose n, close⟩ :: ts)) := by
      simp [Split.lead, Split.push]
    rw [List.cons_append, List.append_assoc, List.cons_append, hopen, ihb, hclose, iha]
    simp only [Option.map_map, Function.comp_def, hout]

/-- The closing tag behind what a section encloses is the one that is found. -/
theorem splitClose_of_flattens (h : Flattens ns ts) (name : Text) (close : LineInfo)
    (us : List Token) :
    splitClose name 0 (ts ++ ⟨.sectionClose name, close⟩ :: us) = some ⟨ts, close, us⟩ := by
  rw [splitClose_append_of_flattens h]
  simp [splitClose, Token.closes, Split.lead]

/-! ### Back to the tree -/

/-- **Tokens laid out from a tree** build to the tree. -/
theorem build_of_flattens (h : Flattens ns ts) : build ts = .ok ns := by
  induction h with
  | nil => exact build_nil
  | text content line later ih =>
    rw [build_single (by simp), ih]
    rfl
  | field n escaped line later ih =>
    rw [build_single (by simp), ih]
    rfl
  | @comment ns ts content line inline later ih =>
    have hleaves : Token.leaves ⟨.comment content, line⟩ = [.comment content] := by
      simp [Token.leaves, inline]
    rw [build_single (by simp), ih, hleaves]
    rfl
  | @partialRef ns ts n indentation line margin later ih =>
    rw [build_single (by simp), ih, margin]
    rfl
  | @block children ns body ts n inverted line close inline inner later ihb iha =>
    have htrim : ¬ Split.trims ⟨body, close, ts⟩ := by simp [Split.trims, inline]
    rw [build_block rfl (splitClose_of_flattens inner n close ts), ihb, iha]
    simp [Except.bind, Except.map, Split.trimNodes, htrim]

theorem flattens_flatten (hns : ∀ kind, ¬ Occurs (.foreign kind) ns) : Flattens ns (flatten ns) := by
  induction ns using nodes_induction with
  | nil => exact .nil
  | leaf n rest hleaf ih =>
    have hrest := ih fun kind hk => hns kind (.later n hk)
    cases n with
    | text content => exact .text content {} hrest
    | field n escaped => exact .field n escaped {} hrest
    | block n inverted children => exact absurd rfl (hleaf n inverted children)
    | comment content => exact .comment content rfl hrest
    | partialRef n w => exact .partialRef n rfl hrest
    | foreign kind => exact absurd (.here rest) (hns kind)
  | block n inverted children rest ihc ihr =>
    have hbody := ihc fun kind hk => hns kind (.inside n inverted rest hk)
    have hrest := ihr fun kind hk => hns kind (.later _ hk)
    rw [flatten_block]
    exact .block n inverted {} rfl hbody hrest

/-- **Building undoes laying out.**  A tree of pieces of a template, laid out flat, builds to the tree
again, whatever names its sections have and however they nest.  Where the texts, the fields and the
opening tags stand on their lines makes no difference, nor which line of its own a partial's tag has. -/
theorem build_flatten (hns : ∀ kind, ¬ Occurs (.foreign kind) ns) :
    build (flatten ns) = .ok ns ∧ ∀ ts, Flattens ns ts → build ts = .ok ns :=
  ⟨build_of_flattens (flattens_flatten hns), fun _ h => build_of_flattens h⟩

/-- Sections of one name inside one another and side by side, a comment and an indented partial. -/
theorem build_flatten_nested :
    let a := "a".toList
    let ns : List Node := [.block a false [.block a true [.text "x".toList, .comment []],
      .partialRef "p".toList "  ".toList], .block a false [.field a true]]
    (∀ kind, ¬ Occurs (.foreign kind) ns) ∧ build (flatten ns) = .ok ns := by
  intro a ns
  have hns : ∀ kind, ¬ Occurs (.foreign kind) ns := by
    simp [ns, occurs_cons_iff, not_occurs_nil, Node.children]
  exact ⟨hns, (build_flatten hns).1⟩

end Mustache
