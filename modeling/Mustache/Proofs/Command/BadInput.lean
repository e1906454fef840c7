import Mustache.Proofs.Command.Report

/-!
# Inputs that are bad

What a run reads before it renders can be bad in few ways, and each of them makes a failure of one
kind.  A file that cannot be read or is no text, and a text that is no JSON, count as bad input;
standard input that is no text, a path with a character that no path can hold, and an integer that
is too long count among all other failures.  `Options.BadInput` follows a run through its stages, and
it misses nothing (`Options.badInput_iff`); the exit code follows the kind (`run_of_badInput`).
-/

namespace Mustache

open Outcome

namespace Command

/-! ### Definitions -/

/-- **A file is bad**: its path holds a character that no path can hold, it cannot be read, or what
is read is no text. -/
inductive Files.BadFile (files : Files) (path : Path) : Failure.Kind → Prop
  | nul (h : '\x00' ∈ path.toText) : files.BadFile path .other
  | obstacle {o : Obstacle} (hnul : '\x00' ∉ path.toText) (h : files.read path = .error o) :
    files.BadFile path .input
  | encoding {octets : List UInt8} {fault : Utf8.Fault} (hnul : '\x00' ∉ path.toText)
    (hread : files.read path = .ok octets) (h : Utf8.decode octets = .error fault) :
    files.BadFile path .input

/-- **A named text is bad**: standard input is no text, or the file is bad. -/
inductive Surroundings.BadText (s : Surroundings) (readBefore : Bool) (name : Text) :
    Failure.Kind → Prop
  | stdin {fault : Utf8.Fault} (hname : name = stdinName)
    (h : Utf8.decode (if readBefore then [] else s.stdin) = .error fault) :
    s.BadText readBefore name .other
  | file {kind : Failure.Kind} (hname : name ≠ stdinName)
    (h : s.files.BadFile (.ofText name) kind) : s.BadText readBefore name kind

/-- **A JSON text is bad**: something is wrong at a place of it, or an integer in it is too long. -/
inductive BadJson (standIns : StandIns) (text : Text) : Failure.Kind → Prop
  | malformed {reason : Json.Reason} {rest : Text}
    (h : Value.ofJsonText text standIns = .error (.at reason rest)) : BadJson standIns text .input
  | tooLong {count : Nat} (h : Value.ofJsonText text standIns = .error (.tooManyDigits count)) :
    BadJson standIns text .other

namespace Options

variable (o : Options) (s : Surroundings)

/-- **The data are bad**: those on the command line, or their file, or what is in it. -/
inductive BadContext : Failure.Kind → Prop
  | argument {text : Text} {kind : Failure.Kind} (hdata : given o.data = some text)
    (h : BadJson (o.standIns s) text kind) : BadContext kind
  | file {name : Text} {kind : Failure.Kind} (hname : o.dataName = some name)
    (h : s.BadText (o.template = stdinName) name kind) : BadContext kind
  | json {name text : Text} {kind : Failure.Kind} (hname : o.dataName = some name)
    (hread : s.readText (o.template = stdinName) name = .ok text)
    (h : BadJson (o.standIns s) text kind) : BadContext kind

/-- **The directory of partials is bad**: it is none, or the first of its files that is bad. -/
inductive BadDirectory : Failure.Kind → Prop
  | absent {name : Text} (hdir : given o.partialsDir = some name)
    (h : s.files.list? (.ofText name) = none) : BadDirectory .input
  | file {name fileName : Text} {front back : List Text} {kind : Failure.Kind}
    (hdir : given o.partialsDir = some name)
    (hlisted : s.files.partialFiles? (.ofText name) = some (front ++ fileName :: back))
    (hfront : ∀ n ∈ front, ∃ text, s.files.readIn (.ofText name) n = .ok text)
    (h : s.files.BadFile ((Path.ofText name).child fileName) kind) : BadDirectory kind

/-- **The file of partials is bad**, or what is in it. -/
inductive BadMembers : Failure.Kind → Prop
  | file {name : Text} {kind : Failure.Kind} (hfile : given o.partialsFile = some name)
    (h : s.BadText o.readBeforePartials name kind) : BadMembers kind
  | json {name text : Text} {kind : Failure.Kind} (hfile : given o.partialsFile = some name)
    (hread : s.readText o.readBeforePartials name = .ok text)
    (h : BadJson (o.standIns s) text kind) : BadMembers kind

/-- **An input of a run is bad**, and all those that are read before it are good. -/
inductive BadInput : Failure.Kind → Prop
  | template {kind : Failure.Kind} (h : s.BadText false o.template kind) : BadInput kind
  | context {template : Text} {kind : Failure.Kind}
    (htemplate : s.readText false o.template = .ok template) (h : o.BadContext s kind) :
    BadInput kind
  | directory {template : Text} {context : Value} {kind : Failure.Kind}
    (htemplate : s.readText false o.template = .ok template) (hcontext : o.HasContext s context)
    (h : o.BadDirectory s kind) : BadInput kind
  | members {template : Text} {context : Value} {found : Fields Value} {kind : Failure.Kind}
    (htemplate : s.readText false o.template = .ok template) (hcontext : o.HasContext s context)
    (hfound : o.HasFound s found) (h : o.BadMembers s kind) : BadInput kind

end Options

variable {o : Options} {s : Surroundings} {arguments : List Text} {files : Files} {path : Path}
  {name text : Text} {kind : Failure.Kind} {readBefore : Bool}

/-! ### Files and texts -/

theorem Files.badFile_iff (name : Text) :
    files.BadFile path kind ↔ ∃ f, readFile files name path = .error f ∧ f.kind = kind := by
  unfold readFile
  constructor
  · intro h
    cases h with
    | nul h => exact ⟨_, if_pos h, rfl⟩
    | @obstacle o hnul h =>
      refine ⟨.unreadable name (.obstacle path o), ?_, rfl⟩
      rw [if_neg hnul, h]
    | @encoding octets fault hnul hread h =>
      refine ⟨.unreadable name (.encoding fault), ?_, rfl⟩
      simp only [if_neg hnul, hread, h]
  · rintro ⟨f, h, rfl⟩
    by_cases hnul : '\x00' ∈ path.toText
    · rw [if_pos hnul] at h
      cases h
      exact .nul hnul
    · rw [if_neg hnul] at h
      cases hread : files.read path with
      | error o =>
        rw [hread] at h
        cases h
        exact .obstacle hnul hread
      | ok octets =>
        cases hdecode : Utf8.decode octets with
        | error fault =>
          simp only [hread, hdecode] at h
          cases h
          exact .encoding hnul hread hdecode
        | ok text => simp [hread, hdecode] at h

theorem Surroundings.badText_iff : s.BadText readBefore name kind ↔
    ∃ f, s.readText readBefore name = .error f ∧ f.kind = kind := by
  unfold Surroundings.readText
  constructor
  · intro h
    cases h with
    | @stdin fault hname h =>
      refine ⟨.badInput fault, ?_, rfl⟩
      rw [if_pos hname, h]
    | file hname h =>
      rw [if_neg hname]
      exact (Files.badFile_iff name).1 h
  · intro h
    by_cases hname : name = stdinName
    · rw [if_pos hname] at h
      obtain ⟨f, h, rfl⟩ := h
      cases hdecode : Utf8.decode (if readBefore then [] else s.stdin) with
      | error fault =>
        rw [hdecode] at h
        cases h
        exact .stdin hname hdecode
      | ok text => simp [hdecode] at h
    · rw [if_neg hname] at h
      exact .file hname ((Files.badFile_iff name).2 h)

theorem badJson_iff {standIns : StandIns} (source : Text) : BadJson standIns text kind ↔
    ∃ f, loadJson standIns source text = .error f ∧ f.kind = kind := by
  constructor
  · intro h
    cases h with
    | malformed h => exact ⟨_, mapError_eq_error_iff.2 ⟨_, h, rfl⟩, rfl⟩
    | tooLong h => exact ⟨_, mapError_eq_error_iff.2 ⟨_, h, rfl⟩, rfl⟩
  · rintro ⟨f, h, rfl⟩
    obtain ⟨fault, hjson, rfl⟩ := mapError_eq_error_iff.1 h
    cases fault with
    | «at» reason rest => exact .malformed hjson
    | tooManyDigits count => exact .tooLong hjson

/-! ### The stages of a run -/

namespace Options

theorem badContext_iff :
    o.BadContext s kind ↔ ∃ f, o.context s = .error f ∧ f.kind = kind := by
  constructor
  · intro h
    cases h with
    | argument hdata h =>
      rw [context_of_data hdata]
      exact (badJson_iff _).1 h
    | file hname h =>
      obtain ⟨f, hread, hkind⟩ := Surroundings.badText_iff.1 h
      exact ⟨f, by rw [context_of_dataName hname, hread, Except.bind], hkind⟩
    | @json name text _ hname hread h =>
      rw [context_of_dataName hname, hread]
      exact (badJson_iff name).1 h
  · rintro ⟨f, h, rfl⟩
    cases hdata : given o.data with
    | some text =>
      rw [context_of_data hdata] at h
      exact .argument hdata ((badJson_iff _).2 ⟨f, h, rfl⟩)
    | none =>
      cases hname : o.dataName with
      | none => simp [Options.context, hdata, hname] at h
      | some name =>
        rw [context_of_dataName hname, bind_eq_error_iff] at h
        rcases h with h | ⟨text, hread, h⟩
        · exact .file hname (Surroundings.badText_iff.2 ⟨f, h, rfl⟩)
        · exact .json hname hread ((badJson_iff name).2 ⟨f, h, rfl⟩)

theorem badDirectory_iff :
    o.BadDirectory s kind ↔ ∃ f, (o.loadFound s).outcome = .error f ∧ f.kind = kind := by
  unfold loadFound
  constructor
  · intro h
    cases h with
    | @absent name hdir h =>
      refine ⟨.noDirectory (.ofText name), ?_, rfl⟩
      simp only [hdir, loadDirectory, h, Traced.outcome_fail]
    | file hdir hlisted hfront h =>
      obtain ⟨f, hread, hkind⟩ := (Files.badFile_iff _).1 h
      refine ⟨f, ?_, hkind⟩
      rw [hdir]
      exact outcome_loadDirectory_error hlisted hfront hread
  · rintro ⟨f, h, rfl⟩
    cases hdir : given o.partialsDir with
    | none => simp [hdir] at h
    | some name =>
      rw [hdir] at h
      cases hlist : s.files.list? (.ofText name) with
      | none =>
        simp only [loadDirectory, hlist, Traced.outcome_fail] at h
        cases h
        exact .absent hdir hlist
      | some all =>
        obtain ⟨names, hlisted⟩ : ∃ names, s.files.partialFiles? (.ofText name) = some names :=
          ⟨_, by rw [Files.partialFiles?, hlist, Option.map_some]⟩
        rcases readable_or_exists_first s.files (.ofText name) names with
          hall | ⟨front, fileName, back, f', rfl, hfront, hread⟩
        · obtain ⟨found, hload, -⟩ := exists_loadDirectory hlisted hall
          cases hload.symm.trans h
        · cases (outcome_loadDirectory_error hlisted hfront hread).symm.trans h
          exact .file hdir hlisted hfront ((Files.badFile_iff _).2 ⟨f, hread, rfl⟩)

theorem badMembers_iff (found : Fields Value) :
    o.BadMembers s kind ↔ ∃ f, (o.loadMembers s found).outcome = .error f ∧ f.kind = kind := by
  unfold loadMembers
  constructor
  · intro h
    cases h with
    | file hfile h =>
      obtain ⟨f, hread, hkind⟩ := Surroundings.badText_iff.1 h
      exact ⟨f, by simp [hfile, hread, Except.bind], hkind⟩
    | @json name text _ hfile hread h =>
      obtain ⟨f, hjson, hkind⟩ := (badJson_iff name).1 h
      exact ⟨f, by simp [hfile, hread, hjson, Except.bind], hkind⟩
  · rintro ⟨f, h, rfl⟩
    cases hfile : given o.partialsFile with
    | none => simp [hfile] at h
    | some name =>
      simp only [hfile, Traced.outcome_bind, Traced.outcome_ofExcept, bind_eq_error_iff] at h
      rcases h with h | ⟨text, hread, h | ⟨v, -, h⟩⟩
      · exact .file hfile (Surroundings.badText_iff.2 ⟨f, h, rfl⟩)
      · exact .json hfile hread ((badJson_iff name).2 ⟨f, h, rfl⟩)
      · cases v <;> cases h

/-- **A bad input** is what ends a run before it renders, with a failure of its kind. -/
theorem badInput_iff (hkind : ∀ code, kind ≠ .template code) :
    o.BadInput s kind ↔ ∃ f, (o.rendered s).outcome = .error f ∧ f.kind = kind := by
  rw [outcome_rendered_eq]
  constructor
  · intro h
    cases h with
    | template h =>
      obtain ⟨f, hread, hf⟩ := Surroundings.badText_iff.1 h
      exact ⟨f, by rw [hread, Except.bind], hf⟩
    | context htemplate h =>
      obtain ⟨f, hcontext, hf⟩ := badContext_iff.1 h
      exact ⟨f, by rw [htemplate, hcontext]; rfl, hf⟩
    | directory htemplate hcontext h =>
      obtain ⟨f, hload, hf⟩ := badDirectory_iff.1 h
      exact ⟨f, by rw [htemplate, context_eq_ok_iff.2 hcontext, hload]; rfl, hf⟩
    | members htemplate hcontext hfound h =>
      obtain ⟨found', hload, -⟩ := hfound.exists_loadFound
      obtain ⟨f, hmembers, hf⟩ := (badMembers_iff found').1 h
      refine ⟨f, ?_, hf⟩
      rw [htemplate, context_eq_ok_iff.2 hcontext, hload]
      simp only [Except.bind, hmembers]
  · rintro ⟨f, h, rfl⟩
    rcases bind_eq_error_iff.1 h with h | ⟨template, htemplate, h⟩
    · exact .template (Surroundings.badText_iff.2 ⟨f, h, rfl⟩)
    rcases bind_eq_error_iff.1 h with h | ⟨context, hcontext, h⟩
    · exact .context htemplate (badContext_iff.2 ⟨f, h, rfl⟩)
    have hcontext := context_eq_ok_iff.1 hcontext
    rcases bind_eq_error_iff.1 h with h | ⟨found, hfound, h⟩
    · exact .directory htemplate hcontext (badDirectory_iff.2 ⟨f, h, rfl⟩)
    have hfound := hasFound_of_loadFound hfound
    rcases bind_eq_error_iff.1 h with h | ⟨partials, -, h⟩
    · exact .members htemplate hcontext hfound ((badMembers_iff found).2 ⟨f, h, rfl⟩)
    -- What rendering fails with is a fault of a template.
    · obtain ⟨e, -, rfl⟩ := mapError_eq_error_iff.1 h
      exact absurd rfl (hkind e.exitCode)

end Options

theorem Failure.exitCode_eq_three_iff (f : Failure) : f.exitCode = 3 ↔ f.kind = .input := by
  rcases f.exitCode_cases with ⟨hkind, hcode⟩ | ⟨hkind, hcode⟩ | ⟨code, hkind, hcode, hrange⟩
  · simp [hkind, hcode]
  · simp [hkind, hcode]
  · have hne : code ≠ 3 := by omega
    simp [hkind, hcode, hne]

/-! ### The exit code -/

/-- A bad input is reported under the label of its kind, with its code. -/
theorem failed_of_badInput (h : Options.ofArguments s.depthLimit.1 arguments = .ok o)
    (hkind : ∀ code, kind ≠ .template code) (hbad : o.BadInput s kind) :
    (∃ f : Failure, f.kind = kind ∧ (run s arguments).code = f.exitCode) ∧
      (run s arguments).Failed s.files kind.label := by
  obtain ⟨f, hrendered, rfl⟩ := (Options.badInput_iff hkind).1 hbad
  obtain ⟨hcode, hfailed⟩ := run_of_error h (job_eq_error_iff.2 (.inl ⟨hrendered, rfl⟩))
  exact ⟨⟨f, rfl, hcode⟩, hfailed⟩

/-- **Bad inputs by their exit code.**  Code 3 stands for just those bad inputs that are told from
other failures.  The rest, standard input that is no text, a path that no file can have and an integer
that is too long, end with code 1 and a complaint of something unexpected. -/
theorem run_of_badInput (h : Options.ofArguments s.depthLimit.1 arguments = .ok o) :
    ((run s arguments).code = 3 ↔ o.BadInput s .input) ∧
    (o.BadInput s .input → (run s arguments).Failed s.files "Error: ".toList) ∧
    (o.BadInput s .other → (run s arguments).code = 1 ∧
      (run s arguments).Failed s.files "Unexpected error: ".toList) := by
  refine ⟨⟨fun hcode => ?_, fun hbad => ?_⟩, fun hbad => ?_, fun hbad => ?_⟩
  · cases hjob : (o.job s).outcome with
    | ok result =>
      rw [(run_of_ok h hjob).1] at hcode
      cases hcode
    | error failed =>
      obtain ⟨f, after⟩ := failed
      rw [(run_of_error h hjob).1, f.exitCode_eq_three_iff] at hcode
      rcases job_eq_error_iff.1 hjob with ⟨hrendered, -⟩ | ⟨text, -, hdeliver⟩
      · exact (Options.badInput_iff (by simp)).2 ⟨f, hrendered, hcode⟩
      · cases hcode.symm.trans (Options.deliver_eq_error_cases hdeliver).1
  · obtain ⟨⟨f, hkind, hcode⟩, -⟩ := failed_of_badInput h (by simp) hbad
    rw [hcode, f.exitCode_eq_three_iff, hkind]
  · exact (failed_of_badInput h (by simp) hbad).2
  · obtain ⟨⟨f, hkind, hcode⟩, hfailed⟩ := failed_of_badInput h (by simp) hbad
    refine ⟨?_, hfailed⟩
    rw [hcode, Failure.exitCode, hkind]

/-- Octets that are no text, on standard input. -/
theorem run_of_badInput_stdin :
    let s : Surroundings := { stdin := [0xff] }
    let o : Options := { template := stdinName }
    Options.ofArguments s.depthLimit.1 [stdinName] = .ok o ∧ o.BadInput s .other ∧
      (run s [stdinName]).code = 1 ∧
      (run s [stdinName]).Failed s.files "Unexpected error: ".toList := by
  intro s o
  have hsettings : Options.ofArguments s.depthLimit.1 [stdinName] = .ok o := rfl
  have hbad : o.BadInput s .other :=
    .template (.stdin rfl (show Utf8.decode [0xff] = .error ⟨0, [0xff], .lead⟩ by decide +kernel))
  exact ⟨hsettings, hbad, (run_of_badInput hsettings).2.2 hbad⟩

/-- The same octets end a run with one code on standard input and with another in a file. -/
theorem run_octets_stdin_file :
    let files : Files := { entries := [(["t".toList], .file [0xff])] }
    let report := run { stdin := [0xff] } [stdinName]
    report.code = 1 ∧
      report.stderr = "Unexpected error: 'utf-8' codec can't decode byte 0xff ".toList ++
        "in position 0: invalid start byte\n".toList ∧
      (run { files := files } ["t".toList]).code = 3 := by
  decide +kernel

end Command

end Mustache
