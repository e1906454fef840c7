import Mustache.Proofs.Command.Gathering
import Mustache.Proofs.Command.Writing
import Mustache.Proofs.Text.Surrogate

/-!
# What a run leaves

A run with settings that can be read ends in one of three ways.  It has rendered what it gathers and
the text is delivered, to standard output or into one file (`Options.Delivers`).  Or nothing has come
of it but a line that says why (`Report.Failed`).  Or it has failed when the output file was open
already, for the text holds a lone surrogate: then it leaves what it would leave of an empty text.  The
exit code tells the first way from the others (`run_delivers_or_fails`).
-/

namespace Mustache

open Outcome

namespace Command

/-! ### Definitions -/

namespace Options

variable (o : Options)

/-- **The output file is written**: it holds the octets, with everything else as it was. -/
inductive Writes (before : Files) (octets : List UInt8) : Files → Prop
  | file {name : Text} {l : Location} {after : Files} (houtput : given o.output = some name)
    (hfollow : before.follow (.ofText name) = .ok l)
    (hread : after.read (.ofText name) = .ok octets)
    (hsame : ∀ other, other ≠ l → after.entry? other = before.entry? other) :
    Writes before octets after

/-- **A text is delivered**: to standard output, with the files as they were, or into the file that
the output setting names. -/
inductive Delivers (before : Files) (text : Text) : Text → Files → Prop
  | stdout (houtput : given o.output = none) : Delivers before text text before
  | file {after : Files} (h : o.Writes before (Utf8.encode text) after) :
    Delivers before text [] after

/-- **Output can be delivered**: if it goes into a file, then its path leads to a place for one. -/
def CanDeliver (files : Files) : Prop :=
  ∀ name, given o.output = some name → '\x00' ∉ (Path.ofText name).toText ∧
    ∃ l, files.follow (.ofText name) = .ok l ∧ files.entry? l ≠ some .directory

/-- **A run comes to a text**: that is what it renders of all that it gathers. -/
def Renders (s : Surroundings) (text : Text) : Prop :=
  ∃ template context partials, o.Gathers s template context partials ∧
    (render template context
      { partials := .mapping partials, maxDepth := o.maxDepth }).outcome = .ok text

end Options

/-- How the line that reports a failure of a kind starts. -/
def Failure.Kind.label : Failure.Kind → Text
  | .other => "Unexpected error: ".toList
  | .input | .template _ => "Error: ".toList

/-- **A run has failed**: there is no output, these are the files, and the last line of the complaint
starts with `label`. -/
structure Report.Failed (r : Report) (files : Files) (label : Text) : Prop where
  stdout : r.stdout = []
  files : r.files = files
  stderr : ∃ log message, r.stderr = joinLines (log ++ [label ++ message])

variable {o : Options} {s : Surroundings} {arguments : List Text} {f : Failure}
  {text stdout name : Text} {files after : Files} {octets : List UInt8}

/-! ### Delivery -/

theorem writeFile_eq_ok_iff {path : Path} : writeFile files path octets = .ok after ↔
    '\x00' ∉ path.toText ∧ files.write path octets = .ok after := by
  unfold writeFile
  by_cases hnul : '\x00' ∈ path.toText
  · simp [hnul]
  · rw [if_neg hnul, mapError_eq_ok_iff]
    exact (and_iff_right hnul).symm

namespace Options

theorem writes_of_writeFile (houtput : given o.output = some name)
    (h : writeFile files (.ofText name) octets = .ok after) : o.Writes files octets after := by
  have hwrite := (writeFile_eq_ok_iff.1 h).2
  obtain ⟨l, hfollow, -, -, hsame⟩ := Files.entry?_of_write hwrite
  exact .file houtput hfollow (Files.read_of_write hwrite) hsame

theorem CanDeliver.exists_writeFile (h : o.CanDeliver files) (houtput : given o.output = some name)
    (octets : List UInt8) : ∃ after, writeFile files (.ofText name) octets = .ok after := by
  obtain ⟨hnul, l, hfollow, hentry⟩ := h name houtput
  exact ⟨_, writeFile_eq_ok_iff.2 ⟨hnul, Files.write_eq_ok_iff.2 ⟨l, hfollow, hentry, rfl⟩⟩⟩

/-- **What is brought out** has octets and is delivered. -/
theorem delivers_of_deliver (h : o.deliver s text = .ok (stdout, after)) :
    (o.standIns s).Free text ∧ o.Delivers s.files text stdout after := by
  unfold deliver at h
  split at h
  · next houtput hencode =>
    cases h
    exact ⟨(StandIns.encode_eq_ok_iff.1 hencode).1, .stdout houtput⟩
  · cases h
  · next octets houtput hencode =>
    obtain ⟨hfree, rfl⟩ := StandIns.encode_eq_ok_iff.1 hencode
    obtain ⟨files, hwrite, hfiles⟩ := map_eq_ok_iff.1 h
    cases hfiles
    exact ⟨hfree, .file (writes_of_writeFile houtput hwrite)⟩
  · obtain ⟨_, -, h⟩ := bind_eq_ok_iff.1 h
    cases h

/-- **A text without lone surrogates** is brought out if it can be. -/
theorem exists_deliver_of_free (h : o.CanDeliver s.files) (hfree : (o.standIns s).Free text) :
    ∃ result, o.deliver s text = .ok result := by
  have hencode := StandIns.encode_eq_ok_iff.2 ⟨hfree, rfl⟩
  cases houtput : given o.output with
  | none => exact ⟨(text, s.files), by simp only [deliver, houtput, hencode]⟩
  | some name =>
    obtain ⟨after, hwrite⟩ := h.exists_writeFile houtput (Utf8.encode text)
    exact ⟨([], after), by simp only [deliver, houtput, hencode, hwrite]; rfl⟩

/-- **A text with lone surrogates** is not, and what is left is what an empty text leaves. -/
theorem exists_deliver_of_not_free (h : o.CanDeliver s.files)
    (hfree : ¬ (o.standIns s).Free text) : ∃ fault after,
      o.deliver s text = .error (.unencodable fault, after) ∧ o.Delivers s.files [] [] after := by
  cases hencode : (o.standIns s).encode text with
  | ok octets => exact absurd (StandIns.encode_eq_ok_iff.1 hencode).1 hfree
  | error fault =>
    cases houtput : given o.output with
    | none => exact ⟨fault, s.files, by simp only [deliver, houtput, hencode], .stdout houtput⟩
    | some name =>
      obtain ⟨after, hwrite⟩ := h.exists_writeFile houtput []
      refine ⟨fault, after, by simp only [deliver, houtput, hencode, hwrite]; rfl, .file ?_⟩
      exact writes_of_writeFile houtput hwrite

theorem kind_of_writeFile {path : Path} (h : writeFile files path octets = .error (f, after)) :
    f.kind = .other ∧ after = files := by
  unfold writeFile at h
  split at h
  · cases h
    exact ⟨rfl, rfl⟩
  · obtain ⟨obstacle, -, h⟩ := mapError_eq_error_iff.1 h
    cases h
    exact ⟨rfl, rfl⟩

/-- **What is not brought out** fails for a reason that is not told apart, and the files are as they
were, unless the text holds a lone surrogate and the output file is open for it. -/
theorem deliver_eq_error_cases (h : o.deliver s text = .error (f, after)) : f.kind = .other ∧
    (after = s.files ∨ ¬ (o.standIns s).Free text ∧ o.Writes s.files [] after) := by
  unfold deliver at h
  split at h
  · cases h
  · cases h
    exact ⟨rfl, .inl rfl⟩
  · obtain ⟨hkind, hafter⟩ := kind_of_writeFile (map_eq_error_iff.1 h)
    exact ⟨hkind, .inl hafter⟩
  · next name fault houtput hencode =>
    rcases bind_eq_error_iff.1 h with hwrite | ⟨emptied, hwrite, h⟩
    · obtain ⟨hkind, hafter⟩ := kind_of_writeFile hwrite
      exact ⟨hkind, .inl hafter⟩
    · cases h
      refine ⟨rfl, .inr ⟨fun hfree => ?_, writes_of_writeFile houtput hwrite⟩⟩
      cases hencode.symm.trans (StandIns.encode_eq_ok_iff.2 ⟨hfree, rfl⟩)

end Options

/-! ### How a run ends -/

/-- The exit code of a failure tells its kind, but for faults of rendering that have the code of what
is not told apart. -/
theorem Failure.exitCode_cases (f : Failure) : (f.kind = .input ∧ f.exitCode = 3) ∨
    (f.kind = .other ∧ f.exitCode = 1) ∨
    ∃ code, f.kind = .template code ∧ f.exitCode = code ∧ (code = 1 ∨ code = 2) := by
  cases f with
  | template error =>
    refine .inr (.inr ⟨error.exitCode, rfl, rfl, ?_⟩)
    unfold Error.exitCode
    split
    · exact .inr rfl
    · exact .inl rfl
  | badJson source text fault =>
    cases fault with
    | «at» reason rest => exact .inl ⟨rfl, rfl⟩
    | tooManyDigits count => exact .inr (.inl ⟨rfl, rfl⟩)
  | unreadable name reason => exact .inl ⟨rfl, rfl⟩
  | noDirectory path => exact .inl ⟨rfl, rfl⟩
  | badInput fault => exact .inr (.inl ⟨rfl, rfl⟩)
  | nulInPath => exact .inr (.inl ⟨rfl, rfl⟩)
  | unwritable path o => exact .inr (.inl ⟨rfl, rfl⟩)
  | unencodable fault => exact .inr (.inl ⟨rfl, rfl⟩)

theorem Failure.exitCode_ne_zero (f : Failure) : f.exitCode ≠ 0 := by
  rcases f.exitCode_cases with ⟨-, hcode⟩ | ⟨-, hcode⟩ | ⟨code, -, hcode, hrange⟩ <;> omega

theorem Failure.line_eq (f : Failure) : f.line = f.kind.label ++ f.message := by
  unfold line
  cases f.kind <;> rfl

/-- Lines are spelled one by one. -/
theorem spell_joinLines (standIns : StandIns) (lines : List Text) :
    standIns.spell (joinLines lines) = joinLines (lines.map standIns.spell) := by
  have hbreak : standIns.spell ['\n'] = ['\n'] :=
    StandIns.spell_of_free (StandIns.free_of_not_ideograph rfl)
  induction lines with
  | nil => rfl
  | cons line lines ih =>
    show standIns.spell (line ++ ['\n'] ++ joinLines lines) = _
    rw [StandIns.spell_append, StandIns.spell_append, hbreak, ih]
    rfl

theorem spell_label (standIns : StandIns) (kind : Failure.Kind) :
    standIns.spell kind.label = kind.label := by
  refine StandIns.spell_of_free (StandIns.free_of_not_ideograph ?_)
  cases kind with
  | other | input | template _ => rfl

theorem run_of_ok (h : Options.ofArguments s.depthLimit.1 arguments = .ok o)
    (hjob : (o.job s).outcome = .ok (stdout, after)) :
    (run s arguments).code = 0 ∧ (run s arguments).stdout = stdout ∧
      (run s arguments).files = after := by
  simp only [run, h, hjob, and_self]

/-- **A failure** leaves its code, its line and the files that come with it. -/
theorem run_of_error (h : Options.ofArguments s.depthLimit.1 arguments = .ok o)
    (hjob : (o.job s).outcome = .error (f, after)) : (run s arguments).code = f.exitCode ∧
      (run s arguments).Failed after f.kind.label := by
  simp only [run, h, hjob, true_and]
  refine ⟨rfl, rfl, ?_⟩
  simp only [spell_joinLines, List.map_append, List.map_singleton, Failure.line_eq,
    StandIns.spell_append, spell_label]
  exact ⟨_, _, rfl⟩

theorem job_eq_ok_iff : (o.job s).outcome = .ok (stdout, after) ↔
    ∃ text, (o.rendered s).outcome = .ok text ∧ o.deliver s text = .ok (stdout, after) := by
  simp only [Options.job, Traced.reword, Traced.outcome_bind, Traced.outcome_ofExcept,
    bind_eq_ok_iff, mapError_eq_ok_iff]

/-- A run ends with what rendering, or else delivery, fails with. -/
theorem job_eq_error_iff : (o.job s).outcome = .error (f, after) ↔
    (o.rendered s).outcome = .error f ∧ after = s.files ∨
      ∃ text, (o.rendered s).outcome = .ok text ∧ o.deliver s text = .error (f, after) := by
  simp only [Options.job, Traced.reword, Traced.outcome_bind, Traced.outcome_ofExcept,
    bind_eq_error_iff, mapError_eq_ok_iff, mapError_eq_error_iff, Prod.mk.injEq]
  refine or_congr_left ⟨?_, fun ⟨hrendered, hafter⟩ => ⟨f, hrendered, rfl, hafter.symm⟩⟩
  rintro ⟨_, hrendered, rfl, rfl⟩
  exact ⟨hrendered, rfl⟩

/-- **A run comes to a text** if and only if it renders what it gathers. -/
theorem Options.renders_iff : o.Renders s text ↔ (o.rendered s).outcome = .ok text := by
  constructor
  · rintro ⟨template, context, partials, hgathers, hrender⟩
    exact (rendered_eq_ok_iff hgathers).2 hrender
  · intro hrendered
    obtain ⟨template, context, partials, hgathers⟩ := exists_gathers_of_rendered hrendered
    exact ⟨template, context, partials, hgathers, (rendered_eq_ok_iff hgathers).1 hrendered⟩

/-- **With a code other than 0** a run has failed.  The files are as they were unless its text holds a
lone surrogate and the output file is empty. -/
theorem failed_of_code_ne_zero (h : Options.ofArguments s.depthLimit.1 arguments = .ok o)
    (hcode : (run s arguments).code ≠ 0) :
    (run s arguments).Failed s.files "Error: ".toList ∨
      (run s arguments).Failed s.files "Unexpected error: ".toList ∨
      ∃ text after, o.Renders s text ∧ ¬ (o.standIns s).Free text ∧ o.Writes s.files [] after ∧
        (run s arguments).Failed after "Unexpected error: ".toList := by
  cases hjob : (o.job s).outcome with
  | ok result => exact absurd (run_of_ok h hjob).1 hcode
  | error failed =>
    obtain ⟨f, after⟩ := failed
    have hfailed := (run_of_error h hjob).2
    rcases job_eq_error_iff.1 hjob with ⟨-, rfl⟩ | ⟨text, hrendered, hdeliver⟩
    · cases hkind : f.kind with
      | input | template code =>
        rw [hkind] at hfailed
        exact .inl hfailed
      | other =>
        rw [hkind] at hfailed
        exact .inr (.inl hfailed)
    · obtain ⟨hkind, hafter⟩ := Options.deliver_eq_error_cases hdeliver
      rw [hkind] at hfailed
      rcases hafter with rfl | ⟨hfree, hwrites⟩
      · exact .inr (.inl hfailed)
      · exact .inr (.inr ⟨text, after, Options.renders_iff.2 hrendered, hfree, hwrites, hfailed⟩)

/-- **With code 0** a run has delivered the text that it comes to. -/
theorem delivers_of_code_eq_zero (h : Options.ofArguments s.depthLimit.1 arguments = .ok o)
    (hcode : (run s arguments).code = 0) :
    ∃ text, o.Renders s text ∧ (o.standIns s).Free text ∧
      o.Delivers s.files text (run s arguments).stdout (run s arguments).files := by
  cases hjob : (o.job s).outcome with
  | error failed =>
    rw [(run_of_error h hjob).1] at hcode
    exact absurd hcode failed.1.exitCode_ne_zero
  | ok result =>
    obtain ⟨-, hstdout, hafter⟩ := run_of_ok h hjob
    obtain ⟨text, hrendered, hdeliver⟩ := job_eq_ok_iff.1 hjob
    rw [hstdout, hafter]
    exact ⟨text, Options.renders_iff.2 hrendered, Options.delivers_of_deliver hdeliver⟩

/-- **Delivered or failed.**  A run with settings that can be read ends with code 0 only if the text
that it comes to is delivered.  With any other code it has failed and changed no file, unless the text
holds a lone surrogate: such a text fails when the output file is open, and leaves it empty.  A text
that can be delivered is, if there is no lone surrogate in it. -/
theorem run_delivers_or_fails (h : Options.ofArguments s.depthLimit.1 arguments = .ok o) :
    ((run s arguments).code = 0 → ∃ text, o.Renders s text ∧ (o.standIns s).Free text ∧
      o.Delivers s.files text (run s arguments).stdout (run s arguments).files) ∧
    ((run s arguments).code ≠ 0 → (run s arguments).Failed s.files "Error: ".toList ∨
      (run s arguments).Failed s.files "Unexpected error: ".toList ∨
      ∃ text after, o.Renders s text ∧ ¬ (o.standIns s).Free text ∧ o.Writes s.files [] after ∧
        (run s arguments).Failed after "Unexpected error: ".toList) ∧
    ∀ text, o.Renders s text → o.CanDeliver s.files →
      ((o.standIns s).Free text → (run s arguments).code = 0) ∧
      (¬ (o.standIns s).Free text → (run s arguments).code = 1 ∧
        ∃ after, o.Delivers s.files [] [] after ∧
          (run s arguments).Failed after "Unexpected error: ".toList) := by
  refine ⟨delivers_of_code_eq_zero h, failed_of_code_ne_zero h, fun text hrenders hcan => ⟨?_, ?_⟩⟩
  · intro hfree
    obtain ⟨⟨stdout, after⟩, hdeliver⟩ := Options.exists_deliver_of_free hcan hfree
    have hrendered := Options.renders_iff.1 hrenders
    exact (run_of_ok h (job_eq_ok_iff.2 ⟨text, hrendered, hdeliver⟩)).1
  · intro hfree
    obtain ⟨fault, after, hdeliver, hleft⟩ := Options.exists_deliver_of_not_free hcan hfree
    have hrendered := Options.renders_iff.1 hrenders
    have hjob := job_eq_error_iff.2 (.inr ⟨text, hrendered, hdeliver⟩)
    obtain ⟨hcode, hfailed⟩ := run_of_error h hjob
    exact ⟨hcode, after, hleft, hfailed⟩

/-- A template and data on the command line, rendered into a file. -/
theorem run_delivers_or_fails_file :
    let s : Surroundings := { files := { entries :=
      [(["t".toList], .file (Utf8.encode "<{{.}}>".toList))] } }
    let arguments := ["t".toList, "-d".toList, "1".toList, "-o".toList, "out".toList]
    let o : Options :=
      { template := "t".toList, data := some "1".toList, output := some "out".toList }
    Options.ofArguments s.depthLimit.1 arguments = .ok o ∧ (run s arguments).code = 0 ∧
      (∃ text, o.Delivers s.files text (run s arguments).stdout (run s arguments).files) ∧
      (run s arguments).files.entries.head? =
        some (["out".toList], .file (Utf8.encode "<1>".toList)) := by
  intro s arguments o
  have hsettings : Options.ofArguments s.depthLimit.1 arguments = .ok o := rfl
  have hcode : (run s arguments).code = 0 := by decide +kernel
  obtain ⟨text, -, -, hdelivers⟩ := (run_delivers_or_fails hsettings).1 hcode
  exact ⟨hsettings, hcode, ⟨text, hdelivers⟩, by decide +kernel⟩

/-- A lone surrogate in the data: the run fails, and there is an empty file where there was none. -/
theorem run_lone_surrogate_file :
    let s : Surroundings := { files := { entries :=
      [(["t".toList], .file (Utf8.encode "{{a}}".toList))] } }
    let report := run s ["t".toList, "-d".toList, "\x7b\"a\": \"\\ud800\"\x7d".toList,
      "-o".toList, "out".toList]
    report.code = 1 ∧ report.stdout = [] ∧
      report.stderr = "Unexpected error: 'utf-8' codec can't encode character '\\ud800' ".toList ++
        "in position 0: surrogates not allowed\n".toList ∧
      s.files.entry? ["out".toList] = none ∧
      report.files.entry? ["out".toList] = some (.file []) := by
  decide +kernel

end Command

end Mustache
