import Mustache.Proofs.Template.Build

/-!
# One pass with a stack

The tree of a token list can be read in one pass that keeps the open sections on a stack.  It pushes
a frame at an opening tag, closes the innermost frame at a closing tag of its name, gives up at a
closing tag of a frame further out, and passes over a closing tag of no frame.  `build` looks ahead
for the closing tag of one name instead, and comes to the same tree; where it finds none, the tag is
the first one without a closing tag inside the body around it (`Unclosed`).
-/

namespace Mustache

/-! ### Definitions -/

/-- An open section. -/
structure Frame where
  name : Text
  inverted : Bool
  /-- The nodes before the section, within the section around it. -/
  before : List Node

/-- What the pass knows: the open sections, innermost first, the nodes read in the innermost one, and
whether the token just read is a text. -/
structure Matcher where
  frames : List Frame := []
  nodes : List Node := []
  afterText : Bool := false

namespace Matcher

/-- The pass with more nodes read. -/
def add (m : Matcher) (nodes : List Node) (isText : Bool) : Matcher :=
  { m with nodes := m.nodes ++ nodes, afterText := isText }

/-- The nodes of the innermost section when a tag on `line` closes it: if that tag stands alone, a
text right before it loses the tag's margin. -/
def closed (m : Matcher) (line : LineInfo) : List Node :=
  if line.standalone = true ∧ line.preceding ≠ [] ∧ m.afterText = true then
    trimEnd line.preceding m.nodes
  else m.nodes

/-- One token; there is no way on at a closing tag of a frame that is not the innermost. -/
def step (m : Matcher) (t : Token) : Option Matcher :=
  match t.symbol with
  | .text content => some (m.add [.text content] true)
  | .field name escaped => some (m.add [.field name escaped] false)
  | .comment content => some (m.add (if t.line.standalone then [] else [.comment content]) false)
  | .partialRef name =>
    some (m.add [.partialRef name (if t.line.standalone then t.line.preceding else [])] false)
  | .sectionOpen name inverted => some ⟨⟨name, inverted, m.nodes⟩ :: m.frames, [], false⟩
  | .sectionClose name =>
    match m.frames with
    | [] => some (m.add [] false)
    | f :: frames =>
      if f.name = name then
        some ⟨frames, f.before ++ [.block f.name f.inverted (m.closed t.line)], false⟩
      else if ∃ g ∈ frames, g.name = name then none
      else some (m.add [] false)

/-- One token after the other. -/
def run (m : Matcher) : List Token → Option Matcher
  | [] => some m
  | t :: ts => (m.step t).bind fun m' => run m' ts

/-- The tree, if no section is open. -/
def tree? (m : Matcher) : Option (List Node) := if m.frames = [] then some m.nodes else none

/-- The tokens close no frame that is open before them: they never close more sections of its name than
they open. -/
def Spares (frames : List Frame) (ts : List Token) : Prop :=
  ∀ f ∈ frames, ∀ p, p <+: ts → 0 ≤ net f.name p

end Matcher

/-- The tree that one pass over the tokens gives. -/
def matchTokens (ts : List Token) : Option (List Node) := (Matcher.run {} ts).bind Matcher.tree?

/-- The token at place `i` opens a section of the name that has no closing tag inside the body around
it.  The body around a token is that of the innermost section with a closing tag of its own, or all
of the list. -/
inductive Unclosed : List Token → Nat → Text → Prop
  | here {t : Token} {rest : List Token} {name : Text} {inverted : Bool}
      (opens : t.symbol = .sectionOpen name inverted) (endless : ∀ s, ¬ ClosedAt name 0 rest s) :
      Unclosed (t :: rest) 0 name
  | past {t : Token} {rest : List Token} {i : Nat} {n : Text}
      (single : ∀ name inverted s, t.symbol = .sectionOpen name inverted →
        ¬ ClosedAt name 0 rest s)
      (later : Unclosed rest i n) : Unclosed (t :: rest) (i + 1) n
  | inside {t : Token} {rest : List Token} {name : Text} {inverted : Bool} {s : Split} {i : Nat}
      {n : Text} (opens : t.symbol = .sectionOpen name inverted) (closed : ClosedAt name 0 rest s)
      (inner : Unclosed s.body i n) : Unclosed (t :: rest) (i + 1) n
  | behind {t : Token} {rest : List Token} {name : Text} {inverted : Bool} {s : Split} {i : Nat}
      {n : Text} (opens : t.symbol = .sectionOpen name inverted) (closed : ClosedAt name 0 rest s)
      (later : Unclosed s.after i n) : Unclosed (t :: rest) (s.body.length + i + 2) n

variable {name n : Text} {t c : Token} {ts us rest : List Token} {s : Split} {ns : List Node}
  {m m' : Matcher} {f : Frame} {frames : List Frame} {inverted : Bool} {e : Error} {i : Nat}

/-! ### Steps -/

namespace Matcher

theorem run_cons (h : m.step t = some m') : m.run (t :: ts) = m'.run ts := by simp [run, h]

theorem run_append (m : Matcher) (ts us : List Token) :
    m.run (ts ++ us) = (m.run ts).bind fun m' => m'.run us := by
  induction ts generalizing m with
  | nil => rfl
  | cons t ts ih =>
    simp only [List.cons_append, run]
    cases m.step t with
    | none => rfl
    | some m' => exact ih m'

theorem step_open (h : t.symbol = .sectionOpen name inverted) :
    m.step t = some ⟨⟨name, inverted, m.nodes⟩ :: m.frames, [], false⟩ := by simp [step, h]

/-- A token that opens no section and closes no open one adds its nodes. -/
theorem step_single (ho : ∀ name inverted, t.symbol ≠ .sectionOpen name inverted)
    (hc : ∀ name, t.symbol = .sectionClose name → ∀ f ∈ m.frames, f.name ≠ name) :
    m.step t = some (m.add t.leaves t.isText) := by
  obtain ⟨symbol, line⟩ := t
  cases symbol with
  | text content => rfl
  | field name escaped => rfl
  | comment content => rfl
  | partialRef name => rfl
  | sectionOpen name inverted => exact absurd rfl (ho name inverted)
  | sectionClose name =>
    have hc := hc name rfl
    obtain ⟨frames, nodes, afterText⟩ := m
    cases frames with
    | nil => rfl
    | cons f frames =>
      have hf : f.name ≠ name := hc f (by simp)
      have hfs : ¬ ∃ g ∈ frames, g.name = name := by
        rintro ⟨g, hg, hn⟩
        exact hc g (by simp [hg]) hn
      simp only [step, if_neg hf, if_neg hfs]
      rfl

theorem step_close (h : c.symbol = .sectionClose name) (hm : m.frames = f :: frames)
    (hf : f.name = name) : m.step c =
      some ⟨frames, f.before ++ [.block f.name f.inverted (m.closed c.line)], false⟩ := by
  simp [step, h, hm, hf]

/-- A closing tag of a frame further out ends the pass. -/
theorem step_close_outer (h : c.symbol = .sectionClose name) (hm : m.frames = f :: frames)
    (hf : f.name ≠ name) (hg : ∃ g ∈ frames, g.name = name) : m.step c = none := by
  simp only [step, h, hm, if_neg hf, if_pos hg]

/-- A closing tag of an open section is one of the innermost section, and closes it. -/
theorem frames_of_step_close (h : c.symbol = .sectionClose name)
    (ho : ∃ g ∈ m.frames, g.name = name) (hs : m.step c = some m') :
    ∃ f, m.frames = f :: m'.frames ∧ f.name = name := by
  obtain ⟨g, hg, hgn⟩ := ho
  cases hm : m.frames with
  | nil => simp [hm] at hg
  | cons f frames =>
    by_cases hf : f.name = name
    · rw [step_close h hm hf] at hs
      cases hs
      exact ⟨f, rfl, hf⟩
    · rw [hm, List.mem_cons] at hg
      have hg : g ∈ frames := hg.resolve_left fun he => hf (he ▸ hgn)
      rw [step_close_outer h hm hf ⟨g, hg, hgn⟩] at hs
      cases hs

/-! ### Lists that build -/

section Spares

variable (hn : Spares frames (t :: rest))
include hn

theorem Spares.ne_name (h : t.symbol = .sectionClose name) : ∀ f ∈ frames, f.name ≠ name := by
  intro f hf he
  have := hn f hf [t] ⟨rest, rfl⟩
  rw [net_cons, net_nil, delta_of_close h, if_pos he.symm] at this
  omega

/-- Behind a token on its own the tokens close no frame either. -/
theorem Spares.tail (ht : ∀ name inverted, t.symbol ≠ .sectionOpen name inverted) :
    Spares frames rest := by
  intro f hf p hp
  have h0 : t.delta f.name = 0 := by
    rcases close_or_leaf ht with ⟨n, hc⟩ | hc
    · rw [delta_of_close hc, if_neg (Ne.symm (hn.ne_name hc f hf))]
    · exact delta_of_leaf hc
  have := hn f hf (t :: p) (List.cons_prefix_cons.2 ⟨rfl, hp⟩)
  rw [net_cons, h0] at this
  omega

/-- The tokens of a section's body close no frame, the section's own among them. -/
theorem Spares.body (ht : t.symbol = .sectionOpen name inverted) (hs : ClosedAt name 0 rest s)
    (before : List Node) : Spares (⟨name, inverted, before⟩ :: frames) s.body := by
  intro f hf p hp
  have hbody : 0 ≤ net name p := by simpa using hs.prefixes p hp
  rcases List.mem_cons.1 hf with rfl | hf
  · exact hbody
  · by_cases he : name = f.name
    · exact he ▸ hbody
    · obtain ⟨c, hrest, -⟩ := hs.closing
      have := hn f hf (t :: p)
        (List.cons_prefix_cons.2 ⟨rfl, hrest ▸ hp.trans (List.prefix_append _ _)⟩)
      rw [net_cons, delta_of_open ht, if_neg he] at this
      omega

/-- Nor do the tokens behind a section that leaves none open. -/
theorem Spares.after (ht : t.symbol = .sectionOpen name inverted) (hs : ClosedAt name 0 rest s)
    (hb : ∀ n, net n s.body ≤ 0) : Spares frames s.after := by
  intro f hf p hp
  obtain ⟨c, hrest, -, hc⟩ := hs.closing
  have hpre : t :: (s.body ++ c :: p) <+: t :: rest := by
    rw [hrest, List.cons_prefix_cons, List.prefix_append_right_inj, List.cons_prefix_cons]
    exact ⟨rfl, rfl, hp⟩
  have h1 := hn f hf _ hpre
  have h2 := hb f.name
  rw [net_cons, net_append, net_cons, delta_of_open ht,
    delta_of_close (closes_eq_true_iff.1 hc)] at h1
  split at h1 <;> omega

end Spares

/-- **Tokens that build** are read in one pass to the same nodes, in any place where they close no
frame that is open already. -/
theorem run_of_build (h : build ts = .ok ns) (hn : Spares m.frames ts) :
    m.run ts = some ⟨m.frames, m.nodes ++ ns, endsWithText ts m.afterText⟩ := by
  induction ts using sections_induction generalizing m ns with
  | nil =>
    rw [build_nil] at h
    cases h
    rw [List.append_nil]
    rfl
  | single t rest ht ih =>
    rw [build_single ht] at h
    obtain ⟨later, hl, rfl⟩ := Outcome.map_eq_ok_iff.1 h
    rw [run_cons (step_single ht fun name hc => hn.ne_name hc),
      ih (m := m.add t.leaves t.isText) hl (hn.tail ht)]
    simp [add, endsWithText_cons]
  | unclosed t rest name inverted ht hs =>
    rw [build_unclosed ht hs] at h
    cases h
  | block t rest name inverted s ht hs ihb iha =>
    rw [build_block ht hs] at h
    obtain ⟨children, hch, h⟩ := Outcome.bind_eq_ok_iff.1 h
    obtain ⟨later, hl, rfl⟩ := Outcome.map_eq_ok_iff.1 h
    have hcut : ClosedAt name 0 rest s := splitClose_eq_some_iff.1 hs
    obtain ⟨c, hrest, hline, hcl⟩ := hcut.closing
    have hclose := closes_eq_true_iff.1 hcl
    have hbody := ihb (m := ⟨⟨name, inverted, m.nodes⟩ :: m.frames, [], false⟩) hch
      (hn.body ht hcut _)
    have hstep : (Matcher.mk (⟨name, inverted, m.nodes⟩ :: m.frames) ([] ++ children)
        (endsWithText s.body false)).step c =
        some ⟨m.frames, m.nodes ++ [.block name inverted (s.trimNodes children)], false⟩ := by
      rw [step_close hclose rfl rfl, closed, hline]
      rfl
    have hafter := iha (m := ⟨m.frames, m.nodes ++ [.block name inverted (s.trimNodes children)],
      false⟩) hl (hn.after ht hcut (net_le_zero hch))
    have htext : c.isText = false := by simp [Token.isText, hclose]
    rw [run_cons (step_open ht), endsWithText_cons, hrest, run_append, hbody, Option.bind_some,
      run_cons hstep, hafter, endsWithText_append_cons, htext]
    simp

/-! ### Lists that do not build -/

/-- How many of the frames have the name. -/
def countName (name : Text) (frames : List Frame) : Nat := frames.countP (·.name = name)

theorem countName_cons (name : Text) (f : Frame) (frames : List Frame) :
    countName name (f :: frames) = countName name frames + if f.name = name then 1 else 0 := by
  simp [countName, List.countP_cons]

/-- While sections of its name are open, or no tag of its name comes, a frame stays where it is. -/
theorem frames_of_step {above below : List Frame} (hm : m.frames = above ++ f :: below)
    (ht : t.closes f.name = true → 0 < countName f.name above) (hs : m.step t = some m') :
    ∃ above', m'.frames = above' ++ f :: below ∧
      (countName f.name above' : Int) = countName f.name above + t.delta f.name := by
  by_cases ho : ∃ name inverted, t.symbol = .sectionOpen name inverted
  · obtain ⟨name, inverted, ho⟩ := ho
    rw [step_open ho] at hs
    cases hs
    refine ⟨⟨name, inverted, m.nodes⟩ :: above, by simp [hm], ?_⟩
    rw [countName_cons, delta_of_open ho]
    split <;> simp
  · have ho : ∀ name inverted, t.symbol ≠ .sectionOpen name inverted :=
      fun name inverted h => ho ⟨name, inverted, h⟩
    rcases close_or_leaf ho with ⟨name, hc⟩ | hl
    · by_cases hopen : ∃ g ∈ m.frames, g.name = name
      · -- the tag closes the innermost frame, which is not `f`
        obtain ⟨g, hg, hgn⟩ := frames_of_step_close hc hopen hs
        rw [hm] at hg
        cases above with
        | nil =>
          obtain ⟨rfl, -⟩ := List.cons_eq_cons.1 hg
          simpa [countName] using ht (closes_eq_true_iff.2 (hgn ▸ hc))
        | cons h above =>
          obtain ⟨rfl, hpop⟩ := List.cons_eq_cons.1 hg
          refine ⟨above, hpop.symm, ?_⟩
          rw [countName_cons, delta_of_close hc, hgn]
          split <;> omega
      · have hne : ∀ g ∈ m.frames, g.name ≠ name := fun g hg h => hopen ⟨g, hg, h⟩
        rw [step_single ho fun n hn => by rwa [Symbol.sectionClose.inj (hn.symm.trans hc)]] at hs
        cases hs
        refine ⟨above, hm, ?_⟩
        rw [delta_of_close hc, if_neg (Ne.symm (hne f (by simp [hm]))), Int.add_zero]
    · rw [step_single ho fun n hn => absurd hn (hl.2 n)] at hs
      cases hs
      exact ⟨above, hm, by rw [delta_of_leaf hl, Int.add_zero]⟩

/-- The same over tokens that close no section of its name that they or the frames above it did not
open. -/
theorem frames_of_run (above : List Frame) {below : List Frame} (hm : m.frames = above ++ f :: below)
    (hp : ∀ p, p <+: ts → 0 ≤ (countName f.name above : Int) + net f.name p)
    (hr : m.run ts = some m') : ∃ above', m'.frames = above' ++ f :: below ∧
      (countName f.name above' : Int) = countName f.name above + net f.name ts := by
  induction ts generalizing m above with
  | nil =>
    cases hr
    exact ⟨above, hm, by simp⟩
  | cons t rest ih =>
    obtain ⟨m1, h1, hr⟩ := Option.bind_eq_some_iff.1 hr
    have ht : t.closes f.name = true → 0 < countName f.name above := by
      intro hc
      have := hp [t] ⟨rest, rfl⟩
      rw [net_cons, net_nil, delta_of_closes hc] at this
      omega
    obtain ⟨above1, hm1, hc1⟩ := frames_of_step hm ht h1
    have hp1 : ∀ p, p <+: rest → 0 ≤ (countName f.name above1 : Int) + net f.name p := by
      intro p hq
      have := hp (t :: p) (List.cons_prefix_cons.2 ⟨rfl, hq⟩)
      rw [net_cons] at this
      omega
    obtain ⟨above', hm', hc'⟩ := ih above1 hm1 hp1 hr
    refine ⟨above', hm', ?_⟩
    rw [net_cons]
    omega

/-- **Tokens that do not build** leave a section open if the pass gets through them, in any place
where they close no frame that is open already. -/
theorem frames_of_build_error (h : build ts = .error e) (hn : Spares m.frames ts)
    (hr : m.run ts = some m') : ∃ g gs, m'.frames = g :: gs ++ m.frames := by
  induction ts using sections_induction generalizing m m' e with
  | nil =>
    rw [build_nil] at h
    cases h
  | single t rest ht ih =>
    rw [build_single ht] at h
    rw [run_cons (step_single ht fun name hc => hn.ne_name hc)] at hr
    exact ih (m := m.add t.leaves t.isText) (Outcome.map_eq_error_iff.1 h) (hn.tail ht) hr
  | unclosed t rest name inverted ht hs =>
    rw [run_cons (step_open ht)] at hr
    obtain ⟨above, hm, -⟩ := frames_of_run [] rfl
      (by simpa [countName] using net_of_splitClose_eq_none hs) hr
    cases above with
    | nil => exact ⟨_, [], hm⟩
    | cons g gs => exact ⟨g, gs ++ [⟨name, inverted, m.nodes⟩], by simpa using hm⟩
  | block t rest name inverted s ht hs ihb iha =>
    have hcut : ClosedAt name 0 rest s := splitClose_eq_some_iff.1 hs
    obtain ⟨c, hrest, -, hcl⟩ := hcut.closing
    have hclose := closes_eq_true_iff.1 hcl
    rw [run_cons (step_open ht), hrest, run_append] at hr
    rw [build_block ht hs] at h
    rcases Outcome.bind_eq_error_iff.1 h with h | ⟨children, hch, h⟩
    · -- a section of the body is open still when the closing tag comes
      obtain ⟨m1, hr1, hr2⟩ := Option.bind_eq_some_iff.1 hr
      obtain ⟨m2, hr2, -⟩ := Option.bind_eq_some_iff.1 hr2
      obtain ⟨g, gs, hg⟩ := ihb (m := ⟨⟨name, inverted, m.nodes⟩ :: m.frames, [], false⟩) h
        (hn.body ht hcut _) hr1
      obtain ⟨above, hm1, hcount⟩ := frames_of_run [] rfl
        (by simpa [countName] using hcut.prefixes) hr1
      obtain rfl : above = g :: gs := List.append_cancel_right (hm1.symm.trans hg)
      have hgn : g.name ≠ name := by
        intro he
        have htot := hcut.total
        rw [countName_cons, if_pos he] at hcount
        simp only [countName, List.countP_nil] at hcount
        omega
      obtain ⟨g', hg', hgn'⟩ := frames_of_step_close hclose
        ⟨⟨name, inverted, m.nodes⟩, by simp [hg], rfl⟩ hr2
      obtain ⟨rfl, -⟩ := List.cons_eq_cons.1 (hg.symm.trans hg')
      exact absurd hgn' hgn
    · rw [run_of_build hch (hn.body ht hcut _), Option.bind_some,
        run_cons (step_close hclose rfl rfl)] at hr
      obtain ⟨g, gs, hg⟩ := iha (m := Matcher.mk m.frames _ false) (Outcome.map_eq_error_iff.1 h)
        (hn.after ht hcut (net_le_zero hch)) hr
      exact ⟨g, gs, hg⟩

end Matcher

/-! ### Sections without a closing tag -/

namespace Unclosed

/-- It is the opening tag at its place that has no closing tag. -/
theorem opens (h : Unclosed ts i n) :
    ∃ t inverted, ts[i]? = some t ∧ t.symbol = .sectionOpen n inverted := by
  induction h with
  | here opens _ => exact ⟨_, _, rfl, opens⟩
  | past _ _ ih => simpa using ih
  | inside _ closed _ ih =>
    obtain ⟨t, inverted, ht, ho⟩ := ih
    obtain ⟨c, rfl, -⟩ := closed.closing
    obtain ⟨hi, -⟩ := List.getElem?_eq_some_iff.1 ht
    exact ⟨t, inverted, by simpa [List.getElem?_append_left hi] using ht, ho⟩
  | @behind _ _ _ _ s i _ _ closed _ ih =>
    obtain ⟨c, rfl, -⟩ := closed.closing
    have hget : ∀ t : Token,
        (t :: (s.body ++ c :: s.after))[s.body.length + i + 2]? = s.after[i]? := by
      intro t
      rw [List.getElem?_cons_succ, Nat.add_assoc, List.getElem?_append_right (by omega)]
      simp
    simpa [hget] using ih

theorem single_iff (ht : ∀ name inverted, t.symbol ≠ .sectionOpen name inverted) :
    Unclosed (t :: rest) i n ↔ ∃ j, i = j + 1 ∧ Unclosed rest j n := by
  constructor
  · intro h
    cases h with
    | here opens _ => exact absurd opens (ht _ _)
    | past _ later => exact ⟨_, rfl, later⟩
    | inside opens _ _ => exact absurd opens (ht _ _)
    | behind opens _ _ => exact absurd opens (ht _ _)
  · rintro ⟨j, rfl, h⟩
    exact .past (fun name inverted _ h => absurd h (ht name inverted)) h

theorem block_iff (ht : t.symbol = .sectionOpen name inverted)
    (hs : splitClose name 0 rest = some s) : Unclosed (t :: rest) i n ↔
      (∃ j, i = j + 1 ∧ Unclosed s.body j n) ∨
        ∃ j, i = s.body.length + j + 2 ∧ Unclosed s.after j n := by
  have hcut : ClosedAt name 0 rest s := splitClose_eq_some_iff.1 hs
  have huniq : ∀ {name' inverted' s'}, t.symbol = .sectionOpen name' inverted' →
      ClosedAt name' 0 rest s' → s' = s := by
    intro name' inverted' s' ho hc
    obtain ⟨rfl, -⟩ := Symbol.sectionOpen.inj (ht.symm.trans ho)
    exact Option.some.inj ((splitClose_eq_some_iff.2 hc).symm.trans hs)
  constructor
  · intro h
    cases h with
    | here opens endless =>
      obtain ⟨rfl, -⟩ := Symbol.sectionOpen.inj (ht.symm.trans opens)
      exact absurd hcut (endless s)
    | past single _ => exact absurd hcut (single _ _ s ht)
    | inside opens closed inner =>
      obtain rfl := huniq opens closed
      exact .inl ⟨_, rfl, inner⟩
    | behind opens closed later =>
      obtain rfl := huniq opens closed
      exact .inr ⟨_, rfl, later⟩
  · rintro (⟨j, rfl, h⟩ | ⟨j, rfl, h⟩)
    · exact .inside ht hcut h
    · exact .behind ht hcut h

end Unclosed

/-- In a list that builds every section has its closing tag. -/
theorem not_unclosed_of_build (h : build ts = .ok ns) : ¬ Unclosed ts i n := by
  induction ts using sections_induction generalizing ns i with
  | nil => exact fun hu => nomatch hu
  | single t rest ht ih =>
    rw [build_single ht] at h
    obtain ⟨later, hl, -⟩ := Outcome.map_eq_ok_iff.1 h
    rw [Unclosed.single_iff ht]
    rintro ⟨j, -, hu⟩
    exact ih hl hu
  | unclosed t rest name inverted ht hs =>
    rw [build_unclosed ht hs] at h
    cases h
  | block t rest name inverted s ht hs ihb iha =>
    rw [build_block ht hs] at h
    obtain ⟨children, hch, h⟩ := Outcome.bind_eq_ok_iff.1 h
    obtain ⟨later, hl, -⟩ := Outcome.map_eq_ok_iff.1 h
    rw [Unclosed.block_iff ht hs]
    rintro (⟨j, -, hu⟩ | ⟨j, -, hu⟩)
    · exact ihb hch hu
    · exact iha hl hu

/-- In a list that does not build the first opening tag without a closing one is the one that the
error names. -/
theorem unclosed_of_build_error (h : build ts = .error e) :
    ∃ i n, e = .unclosedSection n ∧ Unclosed ts i n ∧ ∀ j k, Unclosed ts j k → i ≤ j := by
  induction ts using sections_induction generalizing e with
  | nil =>
    rw [build_nil] at h
    cases h
  | single t rest ht ih =>
    rw [build_single ht] at h
    obtain ⟨i, n, he, hu, hmin⟩ := ih (Outcome.map_eq_error_iff.1 h)
    refine ⟨i + 1, n, he, (Unclosed.single_iff ht).2 ⟨i, rfl, hu⟩, fun j k hj => ?_⟩
    obtain ⟨j', rfl, hj'⟩ := (Unclosed.single_iff ht).1 hj
    have := hmin j' k hj'
    omega
  | unclosed t rest name inverted ht hs =>
    rw [build_unclosed ht hs] at h
    cases h
    refine ⟨0, name, rfl, .here ht fun s hc => ?_, fun j k _ => Nat.zero_le j⟩
    rw [splitClose_eq_some_iff.2 hc] at hs
    cases hs
  | block t rest name inverted s ht hs ihb iha =>
    rw [build_block ht hs] at h
    rcases Outcome.bind_eq_error_iff.1 h with h | ⟨children, hch, h⟩
    · obtain ⟨i, n, he, hu, hmin⟩ := ihb h
      refine ⟨i + 1, n, he, (Unclosed.block_iff ht hs).2 (.inl ⟨i, rfl, hu⟩), fun j k hj => ?_⟩
      obtain ⟨t', inverted', hi, -⟩ := hu.opens
      obtain ⟨hi, -⟩ := List.getElem?_eq_some_iff.1 hi
      rcases (Unclosed.block_iff ht hs).1 hj with ⟨j', rfl, hj'⟩ | ⟨j', rfl, -⟩
      · have := hmin j' k hj'
        omega
      · omega
    · obtain ⟨i, n, he, hu, hmin⟩ := iha (Outcome.map_eq_error_iff.1 h)
      refine ⟨_, n, he, (Unclosed.block_iff ht hs).2 (.inr ⟨i, rfl, hu⟩), fun j k hj => ?_⟩
      rcases (Unclosed.block_iff ht hs).1 hj with ⟨j', -, hj'⟩ | ⟨j', rfl, hj'⟩
      · exact absurd hj' (not_unclosed_of_build hch)
      · have := hmin j' k hj'
        omega

/-! ### The same tree -/

theorem matchTokens_of_build (h : build ts = .ok ns) : matchTokens ts = some ns := by
  unfold matchTokens
  rw [Matcher.run_of_build (m := {}) h (by simp [Matcher.Spares])]
  rfl

theorem matchTokens_of_build_error (h : build ts = .error e) : matchTokens ts = none := by
  unfold matchTokens
  cases hr : Matcher.run {} ts with
  | none => rfl
  | some m =>
    obtain ⟨g, gs, hg⟩ := Matcher.frames_of_build_error (m := {}) h (by simp [Matcher.Spares]) hr
    simp [Matcher.tree?, hg]

/-- **Looking ahead is matching.**  `build` gives a tree exactly where the pass with a stack does, and
the same one.  Where there is none, it names the section of the first opening tag that has no closing
tag in the body around it. -/
theorem build_eq_matchTokens (ts : List Token) :
    (∀ ns, build ts = .ok ns ↔ matchTokens ts = some ns) ∧
      ∀ e, build ts = .error e → ∃ i t name inverted, e = .unclosedSection name ∧
        ts[i]? = some t ∧ t.symbol = .sectionOpen name inverted ∧ Unclosed ts i name ∧
        ∀ j n, Unclosed ts j n → i ≤ j := by
  refine ⟨fun ns => ⟨matchTokens_of_build, fun hm => ?_⟩, fun e he => ?_⟩
  · cases h : build ts with
    | ok ms => rw [Option.some.inj ((matchTokens_of_build h).symm.trans hm)]
    | error e =>
      rw [matchTokens_of_build_error h] at hm
      cases hm
  · obtain ⟨i, name, rfl, hu, hmin⟩ := unclosed_of_build_error he
    obtain ⟨t, inverted, hi, ht⟩ := hu.opens
    exact ⟨i, t, name, inverted, rfl, hi, ht, hu, hmin⟩

end Mustache
