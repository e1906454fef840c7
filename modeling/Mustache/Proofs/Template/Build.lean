import Mathlib.Data.List.Infix
import Mustache.Proofs.Outcome
import Mustache.Template.Build

/-!
# Sections and their closing tags

`splitClose` finds the first token that closes more sections of a name than were opened on the way
(`splitClose_eq_some_iff`).  With it `build` takes tokens apart into tokens on their own and sections,
and a token list can be taken apart in the same way (`sections_induction`).  The main statement is
that tokens behind a list that builds do not change what it builds (`build_append`).
-/

namespace Mustache

/-! ### Definitions -/

/-- What a token does to the number of open sections of a name. -/
def Token.delta (name : Text) (t : Token) : Int :=
  if t.closes name then -1 else if t.opens name then 1 else 0

/-- Does the token neither open nor close a section? -/
def Token.isLeaf (t : Token) : Prop :=
  (∀ name inverted, t.symbol ≠ .sectionOpen name inverted) ∧ ∀ name, t.symbol ≠ .sectionClose name

/-- How many more sections of a name the tokens open than they close. -/
def net (name : Text) : List Token → Int
  | [] => 0
  | t :: ts => t.delta name + net name ts

/-- With `depth` more sections of the name open, `s` is `ts` cut at the tag that closes the last one:
the tokens before it never close more sections of the name than are open, and leave none open. -/
structure ClosedAt (name : Text) (depth : Int) (ts : List Token) (s : Split) : Prop where
  closing : ∃ c, ts = s.body ++ c :: s.after ∧ c.line = s.close ∧ c.closes name = true
  prefixes : ∀ p, p <+: s.body → 0 ≤ depth + net name p
  total : depth + net name s.body = 0

/-- Is the token a text? -/
def Token.isText (t : Token) : Bool :=
  match t.symbol with
  | .text _ => true
  | _ => false

/-- Is the last token a text?  For an empty list the answer is `default`. -/
def endsWithText (ts : List Token) (default : Bool) : Bool :=
  (ts.getLast?.map Token.isText).getD default

/-- Is the last token of the body a text that stands in the margin of the closing tag's line? -/
def Split.trims (s : Split) : Prop :=
  s.close.standalone = true ∧ s.close.preceding ≠ [] ∧ endsWithText s.body false = true

instance (s : Split) : Decidable s.trims := inferInstanceAs (Decidable (_ ∧ _ ∧ _))

/-- The same cut with more tokens in front of the body. -/
def Split.lead (ts : List Token) (s : Split) : Split := { s with body := ts ++ s.body }

/-- The nodes without a margin at the end of the last one, if that is a text; a text of which nothing
is left goes. -/
def trimEnd (margin : Text) (nodes : List Node) : List Node :=
  match nodes.getLast? with
  | some (.text content) =>
    let trimmed := Text.dropEnding margin content
    nodes.dropLast ++ (if trimmed = [] then [] else [.text trimmed])
  | _ => nodes

/-- The nodes of the body, trimmed as its last text is. -/
def Split.trimNodes (s : Split) (nodes : List Node) : List Node :=
  if s.trims then trimEnd s.close.preceding nodes else nodes

variable {name : Text} {t : Token} {ts us rest : List Token} {s : Split} {ns : List Node} {e : Error}

/-! ### Balance -/

@[simp] theorem net_nil (name : Text) : net name [] = 0 := rfl

@[simp] theorem net_cons (name : Text) (t : Token) (ts : List Token) :
    net name (t :: ts) = t.delta name + net name ts := rfl

@[simp] theorem net_append (name : Text) (ts us : List Token) :
    net name (ts ++ us) = net name ts + net name us := by
  induction ts with
  | nil => simp
  | cons t ts ih => simp [ih, Int.add_assoc]

theorem closes_eq_true_iff : t.closes name = true ↔ t.symbol = .sectionClose name := by
  unfold Token.closes
  split
  · next n h => simp [h]
  · next h => simpa using h name

theorem opens_eq_true_iff :
    t.opens name = true ↔ ∃ inverted, t.symbol = .sectionOpen name inverted := by
  unfold Token.opens
  split
  · next n i h => simp [h]
  · next h => simpa using h name

theorem delta_of_open {n : Text} {inverted : Bool} (h : t.symbol = .sectionOpen n inverted) :
    t.delta name = if n = name then 1 else 0 := by
  simp [Token.delta, Token.closes, Token.opens, h]

theorem delta_of_close {n : Text} (h : t.symbol = .sectionClose n) :
    t.delta name = if n = name then -1 else 0 := by
  simp [Token.delta, Token.closes, Token.opens, h]

theorem delta_of_leaf (h : t.isLeaf) : t.delta name = 0 := by
  have hc : ¬ t.closes name = true := fun hc => h.2 name (closes_eq_true_iff.1 hc)
  have ho : ¬ t.opens name = true := fun ho => by
    obtain ⟨inverted, ho⟩ := opens_eq_true_iff.1 ho
    exact h.1 name inverted ho
  simp [Token.delta, hc, ho]

theorem closes_of_leaf (h : t.isLeaf) : t.closes name = false := by
  rw [← Bool.not_eq_true, closes_eq_true_iff]
  exact h.2 name

theorem net_of_leaves (h : ∀ t ∈ ts, t.isLeaf) : net name ts = 0 := by
  induction ts with
  | nil => rfl
  | cons t ts ih =>
    have hrest := ih fun u hu => h u (List.mem_cons_of_mem t hu)
    rw [net_cons, delta_of_leaf (h t List.mem_cons_self), hrest, Int.add_zero]

/-- What is no opening tag is a closing one, or stands on its own. -/
theorem close_or_leaf (h : ∀ name inverted, t.symbol ≠ .sectionOpen name inverted) :
    (∃ name, t.symbol = .sectionClose name) ∨ t.isLeaf := by
  by_cases hc : ∃ name, t.symbol = .sectionClose name
  · exact .inl hc
  · exact .inr ⟨h, fun name hn => hc ⟨name, hn⟩⟩

/-! ### Finding the closing tag -/

theorem delta_of_closes (h : t.closes name = true) : t.delta name = -1 := by simp [Token.delta, h]

theorem delta_of_not_closes (h : t.closes name = false) :
    t.delta name = if t.opens name then 1 else 0 := by simp [Token.delta, h]

theorem closedAt_zero_cons_iff (h : t.closes name = true) :
    ClosedAt name 0 (t :: rest) s ↔ ⟨[], t.line, rest⟩ = s := by
  constructor
  · rintro ⟨⟨c, hs, hl, -⟩, hp, -⟩
    obtain ⟨body, close, after⟩ := s
    cases body with
    | nil =>
      obtain ⟨rfl, rfl⟩ := List.cons_eq_cons.1 hs
      rw [hl]
    | cons u body =>
      -- the first token would close a section that is not open
      obtain ⟨rfl, -⟩ := List.cons_eq_cons.1 hs
      have := hp [t] ⟨body, rfl⟩
      simp [delta_of_closes h] at this
  · rintro rfl
    refine ⟨⟨t, rfl, rfl, h⟩, ?_, rfl⟩
    intro p hp
    simp [List.prefix_nil.1 hp]

theorem closedAt_cons_iff {depth : Int} (hd : 0 ≤ depth) (h : t.closes name = false ∨ depth ≠ 0) :
    ClosedAt name depth (t :: rest) s ↔
      ∃ s', ClosedAt name (depth + t.delta name) rest s' ∧ s'.push t = s := by
  constructor
  · rintro ⟨⟨c, hs, hl, hc⟩, hp, ht⟩
    obtain ⟨body, close, after⟩ := s
    cases body with
    | nil =>
      obtain ⟨rfl, -⟩ := List.cons_eq_cons.1 hs
      simp [hc] at h
      simp at ht
      omega
    | cons u body =>
      obtain ⟨rfl, hs⟩ := List.cons_eq_cons.1 hs
      refine ⟨⟨body, close, after⟩, ⟨⟨c, hs, hl, hc⟩, fun p hb => ?_, ?_⟩, rfl⟩
      · have := hp (t :: p) (List.cons_prefix_cons.2 ⟨rfl, hb⟩)
        rw [net_cons] at this
        omega
      · rw [net_cons] at ht
        show _ + net name body = 0
        omega
  · rintro ⟨s', ⟨⟨c, hs, hl, hc⟩, hp, ht⟩, rfl⟩
    refine ⟨⟨c, by simp [Split.push, hs], hl, hc⟩, fun p hb => ?_, ?_⟩
    · cases p with
      | nil => simpa using hd
      | cons u p =>
        obtain ⟨rfl, hb'⟩ := List.cons_prefix_cons.1 (show u :: p <+: t :: s'.body from hb)
        have := hp p hb'
        rw [net_cons]
        omega
    · show depth + net name (t :: s'.body) = 0
      rw [net_cons]
      omega

/-- **The closing tag** that is found is the first one that leaves no section of the name open. -/
theorem splitClose_eq_some_iff {depth : Nat} :
    splitClose name depth ts = some s ↔ ClosedAt name depth ts s := by
  induction ts generalizing depth s with
  | nil =>
    refine ⟨fun h => by simp [splitClose] at h, fun h => ?_⟩
    obtain ⟨c, hs, -⟩ := h.closing
    simp at hs
  | cons t rest ih =>
    cases hc : t.closes name with
    | true =>
      cases depth with
      | zero =>
        rw [show ((0 : Nat) : Int) = 0 from rfl, closedAt_zero_cons_iff hc]
        simp [splitClose, hc]
      | succ depth =>
        rw [closedAt_cons_iff (by omega) (.inr (by omega)), delta_of_closes hc,
          show ((depth + 1 : Nat) : Int) + -1 = (depth : Nat) by omega]
        simp [splitClose, hc, ih]
    | false =>
      have hd : (depth : Int) + t.delta name = (if t.opens name then depth + 1 else depth : Nat) := by
        rw [delta_of_not_closes hc]
        split <;> simp
      have hcut : splitClose name depth (t :: rest) =
          (splitClose name (if t.opens name then depth + 1 else depth) rest).map (Split.push t) := by
        simp [splitClose, hc]
      rw [closedAt_cons_iff (by omega) (.inl hc), hd, hcut, Option.map_eq_some_iff]
      exact exists_congr fun s' => and_congr_left' ih

/-- Where no closing tag is found, the open sections of the name never run out. -/
theorem net_of_splitClose_eq_none {depth : Nat} (h : splitClose name depth ts = none) :
    ∀ p, p <+: ts → 0 ≤ depth + net name p := by
  induction ts generalizing depth with
  | nil =>
    intro p hp
    simp [List.prefix_nil.1 hp]
  | cons t rest ih =>
    intro p hp
    rcases List.prefix_cons_iff.1 hp with rfl | ⟨q, rfl, hq⟩
    · simp
    · rw [net_cons]
      cases hc : t.closes name with
      | true =>
        cases depth with
        | zero => simp [splitClose, hc] at h
        | succ depth =>
          have := ih (by simpa [splitClose, hc] using h) q hq
          rw [delta_of_closes hc]
          omega
      | false =>
        have := ih (by simpa [splitClose, hc] using h) q hq
        rw [delta_of_not_closes hc]
        split at this
        · next ho =>
          rw [if_pos ho]
          omega
        · next ho =>
          rw [if_neg ho]
          omega

/-- A closing tag is found behind every place where the open sections of the name run out. -/
theorem splitClose_append {depth : Nat} (h : splitClose name depth ts = some s) (us : List Token) :
    splitClose name depth (ts ++ us) = some { s with after := s.after ++ us } := by
  obtain ⟨⟨c, hs, hl, hc⟩, hp, ht⟩ := splitClose_eq_some_iff.1 h
  exact splitClose_eq_some_iff.2 ⟨⟨c, by simp [hs], hl, hc⟩, hp, ht⟩

/-- Where no closing tag is found, the search goes on behind the tokens, with the sections open that
they leave open. -/
theorem splitClose_append_of_none {depth : Nat} (h : splitClose name depth ts = none)
    (us : List Token) : splitClose name depth (ts ++ us) =
      (splitClose name (depth + net name ts).toNat us).map (Split.lead ts) := by
  induction ts generalizing depth with
  | nil =>
    have hlead : Split.lead [] = id := rfl
    rw [List.nil_append, net_nil, Int.add_zero, Int.toNat_natCast, hlead, Option.map_id_fun, id]
  | cons t rest ih =>
    have push : ∀ {d : Nat}, splitClose name d rest = none → (d : Int) = depth + t.delta name →
        (splitClose name d (rest ++ us)).map (Split.push t) =
          (splitClose name (depth + net name (t :: rest)).toNat us).map (Split.lead (t :: rest)) := by
      intro d hd hdepth
      rw [ih hd, Option.map_map, net_cons, ← Int.add_assoc, ← hdepth]
      rfl
    cases hc : t.closes name with
    | true =>
      cases depth with
      | zero => simp [splitClose, hc] at h
      | succ depth =>
        have hrest : splitClose name depth rest = none := by simpa [splitClose, hc] using h
        have hcut : splitClose name (depth + 1) (t :: rest ++ us) =
            (splitClose name depth (rest ++ us)).map (Split.push t) := by simp [splitClose, hc]
        rw [hcut]
        exact push hrest (by rw [delta_of_closes hc]; omega)
    | false =>
      have hrest : splitClose name (if t.opens name then depth + 1 else depth) rest = none := by
        simpa [splitClose, hc] using h
      have hcut : splitClose name depth (t :: rest ++ us) =
          (splitClose name (if t.opens name then depth + 1 else depth) (rest ++ us)).map
            (Split.push t) := by simp [splitClose, hc]
      rw [hcut]
      refine push hrest ?_
      rw [delta_of_not_closes hc]
      split <;> simp

theorem splitClose_concat {depth : Nat} (ht : t.closes name = false) (ts : List Token) :
    splitClose name depth (ts ++ [t]) =
      (splitClose name depth ts).map fun s => { s with after := s.after ++ [t] } := by
  induction ts generalizing depth with
  | nil => simp [splitClose, ht]
  | cons u ts ih =>
    have hpush : ∀ d, (splitClose name d (ts ++ [t])).map (Split.push u) =
        ((splitClose name d ts).map (Split.push u)).map
          fun s => { s with after := s.after ++ [t] } := by
      intro d
      rw [ih]
      cases splitClose name d ts <;> rfl
    simp only [List.cons_append, splitClose]
    split
    · split
      · rfl
      · exact hpush _
    · exact hpush _

theorem splitClose_of_leaves (h : ∀ t ∈ ts, t.isLeaf) (depth : Nat) :
    splitClose name depth ts = none := by
  induction ts generalizing depth with
  | nil => rfl
  | cons t ts ih =>
    have hclose : t.closes name = false := closes_of_leaf (h t List.mem_cons_self)
    have hrest := fun d => ih (fun u hu => h u (List.mem_cons_of_mem t hu)) d
    simp [splitClose, hclose, hrest]

/-! ### Taking tokens apart -/

/-- A token list is empty, or starts with a token on its own, with an opening tag without a closing
one, or with a section. -/
theorem sections_induction {P : List Token → Prop} (nil : P [])
    (single : ∀ t rest, (∀ name inverted, t.symbol ≠ .sectionOpen name inverted) → P rest →
      P (t :: rest))
    (unclosed : ∀ t rest name inverted, t.symbol = .sectionOpen name inverted →
      splitClose name 0 rest = none → P (t :: rest))
    (block : ∀ t rest name inverted s, t.symbol = .sectionOpen name inverted →
      splitClose name 0 rest = some s → P s.body → P s.after → P (t :: rest))
    (ts : List Token) : P ts := by
  induction hn : ts.length using Nat.strong_induction_on generalizing ts with
  | h n ih =>
    cases ts with
    | nil => exact nil
    | cons t rest =>
      rw [List.length_cons] at hn
      by_cases hopen : ∃ name inverted, t.symbol = .sectionOpen name inverted
      · obtain ⟨name, inverted, ht⟩ := hopen
        cases hs : splitClose name 0 rest with
        | none => exact unclosed t rest name inverted ht hs
        | some s =>
          have := length_of_splitClose hs
          exact block t rest name inverted s ht hs (ih _ (by omega) s.body rfl)
            (ih _ (by omega) s.after rfl)
      · refine single t rest (fun name inverted ht => hopen ⟨name, inverted, ht⟩) ?_
        exact ih _ (by omega) rest rfl

theorem build_nil : build [] = .ok [] := by rw [build]

theorem build_single (ht : ∀ name inverted, t.symbol ≠ .sectionOpen name inverted) :
    build (t :: rest) = (build rest).map (t.leaves ++ ·) := by
  rw [build]
  split
  · next h => exact absurd h (ht _ _)
  · cases build rest <;> rfl

/-- Tokens on their own add their nodes in front. -/
theorem build_leaves_append (h : ∀ t ∈ us, t.isLeaf) (ts : List Token) :
    build (us ++ ts) = (build ts).map (us.flatMap Token.leaves ++ ·) := by
  induction us with
  | nil => exact (Outcome.map_id (build ts)).symm
  | cons u us ih =>
    rw [List.cons_append, build_single (h u List.mem_cons_self).1,
      ih fun v hv => h v (List.mem_cons_of_mem u hv), Outcome.map_map]
    simp only [List.flatMap_cons, List.append_assoc]

theorem build_unclosed {inverted : Bool} (ht : t.symbol = .sectionOpen name inverted)
    (hs : splitClose name 0 rest = none) : build (t :: rest) = .error (.unclosedSection name) := by
  rw [build]
  split
  · next n i h =>
    obtain ⟨rfl, rfl⟩ := Symbol.sectionOpen.inj (ht.symm.trans h)
    split
    · rfl
    · next h' => simp [hs] at h'
  · next h => exact absurd ht (h _ _)

theorem build_block_trimmed {inverted : Bool} (ht : t.symbol = .sectionOpen name inverted)
    (hs : splitClose name 0 rest = some s) : build (t :: rest) =
      (build s.trimmedBody).bind fun children =>
        (build s.after).map (.block name inverted children :: ·) := by
  rw [build]
  split
  · next n i h =>
    obtain ⟨rfl, rfl⟩ := Symbol.sectionOpen.inj (ht.symm.trans h)
    split
    · next h' => simp [hs] at h'
    · next s' h' =>
      obtain rfl : s = s' := by simpa [hs] using h'
      cases build s.trimmedBody with
      | error e => rfl
      | ok children => cases build s.after <;> rfl
  · next h => exact absurd ht (h _ _)

/-! ### Trimming a body -/

theorem endsWithText_cons (t : Token) (ts : List Token) (b : Bool) :
    endsWithText (t :: ts) b = endsWithText ts t.isText := by
  cases ts with
  | nil => rfl
  | cons u ts =>
    simp only [endsWithText, List.getLast?_cons_cons]
    cases h : (u :: ts).getLast? with
    | none => simp at h
    | some v => rfl

theorem endsWithText_append_cons (us : List Token) (t : Token) (ts : List Token) (b : Bool) :
    endsWithText (us ++ t :: ts) b = endsWithText ts t.isText := by
  induction us generalizing b with
  | nil => exact endsWithText_cons t ts b
  | cons u us ih => rw [List.cons_append, endsWithText_cons, ih]

/-- A token on its own adds its nodes at the end, whatever comes before it. -/
theorem build_concat (ht : t.isLeaf) (ts : List Token) :
    build (ts ++ [t]) = (build ts).map (· ++ t.leaves) := by
  induction ts using sections_induction with
  | nil =>
    rw [List.nil_append, build_single ht.1, build_nil]
    simp [Except.map]
  | single u rest hu ih =>
    rw [List.cons_append, build_single hu, build_single hu, ih]
    cases build rest <;> simp [Except.map]
  | unclosed u rest name inverted hu hs =>
    rw [List.cons_append, build_unclosed hu hs, build_unclosed hu]
    · rfl
    · rw [splitClose_concat (closes_of_leaf ht), hs]
      rfl
  | block u rest name inverted s hu hs _ ih =>
    have hs' : splitClose name 0 (rest ++ [t]) = some { s with after := s.after ++ [t] } := by
      rw [splitClose_concat (closes_of_leaf ht), hs]
      rfl
    rw [List.cons_append, build_block_trimmed hu hs, build_block_trimmed hu hs', ih]
    show (build s.trimmedBody).bind _ = _
    cases build s.trimmedBody with
    | error e => rfl
    | ok children => cases build s.after <;> rfl

theorem build_trimmedBody_of_trims (h : s.trims) :
    build s.trimmedBody = (build s.body).map (trimEnd s.close.preceding) := by
  obtain ⟨h1, h2, h3⟩ := h
  cases hl : s.body.getLast? with
  | none => simp [endsWithText, hl] at h3
  | some last =>
    obtain ⟨content, hsym⟩ : ∃ content, last.symbol = .text content := by
      simp only [endsWithText, hl, Option.map_some, Option.getD_some, Token.isText] at h3
      split at h3
      · next content hsym => exact ⟨content, hsym⟩
      · cases h3
    obtain ⟨symbol, line⟩ := last
    obtain rfl : symbol = .text content := hsym
    have hb : s.body = s.body.dropLast ++ [⟨.text content, line⟩] :=
      (List.dropLast_append_getLast? _ hl).symm
    have hleaf : ∀ c, Token.isLeaf ⟨.text c, line⟩ := fun c => ⟨by simp, by simp⟩
    have hmap : build s.body = (build s.body.dropLast).map (· ++ [.text content]) := by
      rw [hb, build_concat (hleaf content), ← hb]
      rfl
    unfold Split.trimmedBody
    rw [if_pos ⟨h1, h2⟩, hl, hmap]
    dsimp only
    cases hd : build s.body.dropLast with
    | error e =>
      split
      · simp [hd, Except.map]
      · simp [build_concat (hleaf _), hd, Except.map]
    | ok ns =>
      split
      · next ht => simp [hd, Except.map, trimEnd, ht]
      · next ht => simp [build_concat (hleaf _), hd, Except.map, trimEnd, ht, Token.leaves]

theorem trimmedBody_of_not_trims (h : ¬ s.trims) : s.trimmedBody = s.body := by
  unfold Split.trimmedBody
  split
  · next hc =>
    split
    · next content line hl => exact absurd ⟨hc.1, hc.2, by simp [endsWithText, hl, Token.isText]⟩ h
    · rfl
  · rfl

/-- Trimming a body trims the nodes of the body. -/
theorem build_trimmedBody (s : Split) : build s.trimmedBody = (build s.body).map s.trimNodes := by
  unfold Split.trimNodes
  by_cases h : s.trims
  · simp only [if_pos h]
    exact build_trimmedBody_of_trims h
  · simp only [if_neg h]
    rw [trimmedBody_of_not_trims h]
    cases build s.body <;> rfl

/-- **A section** is its body, built and trimmed, and then what comes behind it. -/
theorem build_block {inverted : Bool} (ht : t.symbol = .sectionOpen name inverted)
    (hs : splitClose name 0 rest = some s) : build (t :: rest) =
      (build s.body).bind fun children =>
        (build s.after).map (.block name inverted (s.trimNodes children) :: ·) := by
  rw [build_block_trimmed ht hs, build_trimmedBody]
  cases build s.body <;> rfl

/-! ### Lists that build -/

/-- Tokens that build leave no section open. -/
theorem net_le_zero (h : build ts = .ok ns) (name : Text) : net name ts ≤ 0 := by
  induction ts using sections_induction generalizing ns with
  | nil => simp
  | single t rest ht ih =>
    rw [build_single ht] at h
    obtain ⟨later, hl, -⟩ := Outcome.map_eq_ok_iff.1 h
    have := ih hl
    rw [net_cons]
    rcases close_or_leaf ht with ⟨n, hn⟩ | hn
    · rw [delta_of_close hn]
      split <;> omega
    · rw [delta_of_leaf hn]
      omega
  | unclosed t rest n inverted ht hs =>
    rw [build_unclosed ht hs] at h
    cases h
  | block t rest n inverted s ht hs ihb iha =>
    rw [build_block ht hs] at h
    obtain ⟨children, hc, h⟩ := Outcome.bind_eq_ok_iff.1 h
    obtain ⟨later, hl, -⟩ := Outcome.map_eq_ok_iff.1 h
    have h1 := ihb hc
    have h2 := iha hl
    obtain ⟨⟨c, rfl, -, hcl⟩, -, htot⟩ := splitClose_eq_some_iff.1 hs
    rw [net_cons, net_append, net_cons, delta_of_open ht,
      delta_of_close (closes_eq_true_iff.1 hcl)]
    split
    · next he =>
      rw [he] at htot
      omega
    · omega

/-- **Tokens behind a list that builds** build as they do alone. -/
theorem build_append (h : build ts = .ok ns) (us : List Token) :
    build (ts ++ us) = (build us).map (ns ++ ·) := by
  induction ts using sections_induction generalizing ns with
  | nil =>
    rw [build_nil] at h
    cases h
    rw [List.nil_append]
    cases build us <;> rfl
  | single t rest ht ih =>
    rw [build_single ht] at h
    obtain ⟨later, hl, rfl⟩ := Outcome.map_eq_ok_iff.1 h
    rw [List.cons_append, build_single ht, ih hl]
    cases build us <;> simp [Except.map]
  | unclosed t rest name inverted ht hs =>
    rw [build_unclosed ht hs] at h
    cases h
  | block t rest name inverted s ht hs _ ih =>
    rw [build_block ht hs] at h
    obtain ⟨children, hc, h⟩ := Outcome.bind_eq_ok_iff.1 h
    obtain ⟨later, hl, rfl⟩ := Outcome.map_eq_ok_iff.1 h
    rw [List.cons_append, build_block ht (splitClose_append hs us)]
    show (build s.body).bind _ = _
    rw [hc, Except.bind, ih hl]
    cases build us <;> rfl

end Mustache
