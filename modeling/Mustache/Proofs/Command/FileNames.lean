import Mustache.Proofs.Command.Partials
import Mustache.Proofs.Render.NestedMargin

/-!
# Partials under the names of their files

A partial from a directory has the name of its file, and a template asks for it by that name
(`partialTag`).  If the name is a key, then the tag renders as the text of the file does, with one
more expansion around it (`renderTemplate_partialTag`).  A name with dots is a path and leads through
mappings; in a directory there are none, so nothing comes of it.
-/

namespace Mustache

open Cursor Outcome Text

/-! ### Definitions -/

/-- The tag of a partial, with nothing around it. -/
def partialTag (name : Text) : Text :=
  Delimiter.braces.opening ++ ('>' :: ' ' :: name) ++ Delimiter.braces.closing

variable {r : Renderer} {name text : Text} {scope : Scope} {expand : Expander}
  {allowance depth depth' : Nat}

/-! ### The tag of a partial -/

/-- A template that is the tag of a partial is parsed to the partial, with no margin. -/
theorem outcome_parse_partialTag (hstrip : strip name = name) (hbrace : '}' ∉ name) :
    (parse (partialTag name)).outcome = .ok [.partialRef name []] := by
  let t : Tag := ⟨[], '>' :: ' ' :: name, [], false⟩
  let c : Cursor := { rest := partialTag name }
  have hclosing : Clear Delimiter.braces.closing t.content := by
    refine clear_of_head? (by decide) ?_
    rintro _ ⟨⟩
    simp [t, hbrace]
  have hcut : cutTag .braces c.rest = .tag t := by
    refine cutTag_eq_tag_iff.2 ⟨?_, clear_nil _, hclosing, by simp [t]⟩
    simp [c, partialTag, t, Tag.brace]
  have hmeaning : t.meaning = .ok (.symbol (.partialRef name)) := meaning_of_partial rfl hstrip
  let d : Cursor := c.past t (.symbol (.partialRef name))
  have hrest : d.rest = [] := by
    show t.rest true = []
    unfold Tag.rest
    split <;> rfl
  have hend : d.scan.outcome = .ok [] := by
    have hplain : cutTag d.delimiter d.rest = .plain := by
      rw [cutTag_eq_plain_iff, hrest, List.infix_nil]
      exact d.delimiter.opening_ne_nil
    rw [outcome_scan_of_plain hplain, endTokens, if_pos hrest]
  have htokens : (tokenize (partialTag name)).outcome =
      .ok [⟨.partialRef name, t.line true⟩] := by
    show c.scan.outcome = _
    rw [outcome_scan_of_tag hcut, hmeaning, Except.bind, hend]
    rfl
  refine outcome_parse_eq_ok_iff.2 ⟨_, htokens, ?_⟩
  rw [build_single (by simp), build_nil]
  rfl

/-- Such a template renders to what the partial without a margin renders to. -/
theorem renderText_partialTag (hstrip : strip name = name) (hbrace : '}' ∉ name) :
    renderText expand (partialTag name) scope = (expand name [] scope).outcome := by
  rw [renderText, outcome_parse_partialTag hstrip hbrace, Except.bind, outcome_renderAll_cons]
  show joined (expand name [] scope).outcome (.ok []) = _
  cases (expand name [] scope).outcome with
  | error e => rfl
  | ok s => rw [joined_ok_ok, List.append_nil]

/-! ### Expansions without a bound -/

theorem joins_eq : Joins fun _ x y => x = y where
  text _ := rfl
  fault _ := rfl
  join front back := by rw [front, back]

/-- Expansions with different numbers of expansions around them come to the same if their texts do. -/
theorem outcome_expand_congr_text (h : r.maxDepth = none)
    (htext : ∀ text scope, r.expandText depth allowance text scope =
      r.expandText depth' allowance text scope) (name w : Text) (scope : Scope) :
    (r.expand allowance depth name w scope).outcome =
      (r.expand allowance depth' name w scope).outcome := by
  cases hname : r.partialText? name with
  | none => rw [outcome_expand_of_missing hname, outcome_expand_of_missing hname]
  | some text =>
    rw [outcome_expand_of_room hname (exceeds_of_unbounded h depth),
      outcome_expand_of_room hname (exceeds_of_unbounded h depth')]
    exact htext _ scope

/-- Without a bound it makes no difference how many expansions there are around one. -/
theorem expandText_of_unbounded (h : r.maxDepth = none) (allowance depth depth' : Nat)
    (text : Text) (scope : Scope) : r.expandText depth allowance text scope =
      r.expandText depth' allowance text scope := by
  induction allowance generalizing depth depth' text scope with
  | zero => rfl
  | succ allowance ih =>
    exact joins_eq.renderText (fun _ _ _ => 0)
      (outcome_expand_congr_text h (ih (depth + 1) (depth' + 1))) text scope

/-- **The tag of a partial** renders as the text of the partial does, with one more expansion around
it. -/
theorem renderText_partialTag_of_text (h : r.maxDepth = none) (hstrip : strip name = name)
    (hbrace : '}' ∉ name) (hname : r.partialText? name = some text) (allowance : Nat) :
    renderText (r.expand (allowance + 1) 0) (partialTag name) scope =
      renderText (r.expand allowance 0) text scope := by
  rw [renderText_partialTag hstrip hbrace,
    outcome_expand_of_room hname (exceeds_of_unbounded h 0), indent_nil]
  exact joins_eq.renderText (fun _ _ _ => 0)
    (outcome_expand_congr_text h (expandText_of_unbounded h allowance 1 0)) text scope

/-! ### Names of files -/

namespace Command

variable {files : Files} {dir : Path} {names : List Text} {found : Fields Value}
  {fileName : Text}

theorem partialName_append (h : name ≠ []) : partialName (name ++ partialSuffix) = name := by
  have hne : name ++ partialSuffix ≠ partialSuffix := by simpa using h
  rw [partialName, if_neg hne, dropEnding_append]

/-- A name without dots is the partial of one file only. -/
theorem eq_of_partialName_eq (hsuffix : partialSuffix.isSuffixOf fileName = true)
    (hname : partialName fileName = name) (hdot : '.' ∉ name) :
    fileName = name ++ partialSuffix := by
  obtain ⟨front, rfl⟩ := List.isSuffixOf_iff_suffix.1 hsuffix
  by_cases hfront : front = []
  · subst hfront
    -- The file that is named by the ending alone keeps its name, and that starts with a dot.
    subst hname
    exact absurd (by decide) hdot
  · rw [partialName_append hfront] at hname
    rw [hname]

/-- **A file without dots in its name** is found under its name, without the ending. -/
theorem Files.HoldsPartials.lookup_eq (h : files.HoldsPartials dir names found)
    (hmem : name ++ partialSuffix ∈ names) (hne : name ≠ []) (hdot : '.' ∉ name)
    (htext : files.readIn dir (name ++ partialSuffix) = .ok text) :
    found.lookup name = some (.scalar text) := by
  refine (h.lookup_iff name _).2 ⟨name ++ partialSuffix, text, ?_, htext, rfl⟩
  have hnamed : name ++ partialSuffix ∈ names.filter fun other => partialName other = name :=
    List.mem_filter.2 ⟨hmem, by simp [partialName_append hne]⟩
  cases hlast : (names.filter fun other => partialName other = name).getLast? with
  | none =>
    rw [List.getLast?_eq_none_iff] at hlast
    exact absurd hnamed (hlast ▸ List.not_mem_nil)
  | some last =>
    obtain ⟨hlisted, hlastName⟩ := List.mem_filter.1 (List.mem_of_getLast? hlast)
    rw [eq_of_partialName_eq (h.isSuffixOf_of_mem last hlisted) (by simpa using hlastName) hdot]

/-- **A partial under the name of its file.**  In the partials that are loaded from a directory, a
file whose name can stand in a tag is rendered by that tag as its text is rendered by itself, with one
more expansion around it, and no bound on them, if there is no dot in the name.  A name with dots is
read as a path, and so the tag renders to nothing. -/
theorem renderTemplate_partialTag (name : Text) {all : List Text}
    (hload : (loadDirectory files dir).outcome = .ok found) (hall : files.list? dir = some all)
    (hmem : name ++ partialSuffix ∈ all) (hne : name ≠ []) (hstrip : strip name = name)
    (hbrace : '}' ∉ name) :
    ∃ text, files.readIn dir (name ++ partialSuffix) = .ok text ∧
      ∀ (context : Value) (allowance : Nat),
        let r : Renderer := { partials := .mapping found, maxDepth := none }
        ('.' ∉ name →
          (r.renderTemplate (allowance + 1) (partialTag name) { root := context }).outcome =
            (r.renderTemplate allowance text { root := context }).outcome) ∧
        ('.' ∈ name →
          (r.renderTemplate allowance (partialTag name) { root := context }).outcome = .ok []) := by
  obtain ⟨names, hholds⟩ := holdsPartials_of_loadDirectory hload
  have hlisted : name ++ partialSuffix ∈ names := by
    have hnames : names = all.filter partialSuffix.isSuffixOf := by
      simpa [Files.partialFiles?, hall] using hholds.listed.symm
    rw [hnames, List.mem_filter, List.isSuffixOf_iff_suffix]
    exact ⟨hmem, List.suffix_append name partialSuffix⟩
  obtain ⟨text, htext⟩ := hholds.readable _ hlisted
  refine ⟨text, htext, fun context allowance => ⟨fun hdot => ?_, fun hdot => ?_⟩⟩
  · have hname : Renderer.partialText? { partials := .mapping found } name = some text := by
      rw [Renderer.partialText?, Value.lookup_mapping_of_key hstrip hdot,
        hholds.lookup_eq hlisted hne hdot htext]
      rfl
    rw [outcome_renderTemplate, outcome_renderTemplate]
    exact renderText_partialTag_of_text rfl hstrip hbrace hname allowance
  · have htexts : ∀ key v, found.lookup key = some v → ∃ s, v = .scalar s := by
      intro key v hv
      obtain ⟨-, s, -, -, rfl⟩ := (hholds.lookup_iff key v).1 hv
      exact ⟨s, rfl⟩
    have hname : Renderer.partialText? { partials := .mapping found } name = none :=
      Value.text?_lookup_of_dot htexts (hstrip.symm ▸ hdot)
    rw [outcome_renderTemplate, renderText_partialTag hstrip hbrace]
    exact outcome_expand_of_missing hname

/-- A file with a blank in its name. -/
theorem renderTemplate_partialTag_blank :
    let files : Files := { entries :=
      [(["p".toList, "a b.mustache".toList], .file (Utf8.encode "<{{x}}>".toList))] }
    let r : Renderer := { partials := .mapping [("a b".toList, .scalar "<{{x}}>".toList)] }
    let context : Value := .mapping [("x".toList, .scalar "1".toList)]
    (loadDirectory files (.ofText "p".toList)).outcome =
        .ok [("a b".toList, .scalar "<{{x}}>".toList)] ∧
      (r.renderTemplate 1 (partialTag "a b".toList) { root := context }).outcome =
        .ok "<1>".toList := by
  intro files r context
  have hall : files.list? (.ofText "p".toList) = some ["a b.mustache".toList] := by decide +kernel
  have hread : files.readIn (.ofText "p".toList) "a b.mustache".toList =
      .ok "<{{x}}>".toList := by decide +kernel
  have hload : (loadDirectory files (.ofText "p".toList)).outcome =
      .ok [("a b".toList, .scalar "<{{x}}>".toList)] := by
    refine outcome_loadDirectory ["a b.mustache".toList] (fun _ => "<{{x}}>".toList) ?_ ?_
    · decide +kernel
    · exact List.forall_mem_singleton.2 hread
  obtain ⟨text, htext, hrender⟩ := renderTemplate_partialTag "a b".toList hload hall (by decide)
    (by decide) (by decide) (by decide)
  cases hread.symm.trans htext
  refine ⟨hload, ?_⟩
  rw [(hrender context 0).1 (by decide)]
  decide +kernel

/-- A file with a dot in its name is loaded, and there is no way to it by that name. -/
theorem render_partialTag_dotted :
    let files : Files := { entries :=
      [(["p".toList, "a.b.mustache".toList], .file (Utf8.encode "1".toList))] }
    let r : Renderer := { partials := .mapping [("a.b".toList, .scalar "1".toList)] }
    (loadDirectory files (.ofText "p".toList)).outcome = .ok [("a.b".toList, .scalar "1".toList)] ∧
      files.readIn (.ofText "p".toList) "a.b.mustache".toList = .ok "1".toList ∧
      (render (partialTag "a.b".toList) .empty r).outcome = .ok [] ∧
      (render "1".toList .empty r).outcome = .ok "1".toList := by
  intro files r
  have hread : files.readIn (.ofText "p".toList) "a.b.mustache".toList = .ok "1".toList := by decide +kernel
  refine ⟨?_, hread, by decide +kernel, by decide +kernel⟩
  refine outcome_loadDirectory ["a.b.mustache".toList] (fun _ => "1".toList) ?_ ?_
  · decide +kernel
  · exact List.forall_mem_singleton.2 hread

end Command

end Mustache
