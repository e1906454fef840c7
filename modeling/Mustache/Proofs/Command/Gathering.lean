import Mathlib.Data.List.Nodup
import Mustache.Proofs.Command.Partials
import Mustache.Proofs.Render.Simulation
import Mustache.Proofs.Value.Equality

/-!
# What a run gathers

Before it renders, a run gathers a template, its data and the partials.  `Options.Gathers` says where
each of them comes from; partials are compared by what a lookup finds, which is all that rendering
reads of them (`render_congr_partials`).  Rendering what is gathered is all that is left to do
(`rendered_eq_ok_iff`), and nothing is rendered unless all of it is there
(`exists_gathers_of_rendered`).
-/

namespace Mustache

open Outcome

/-! ### Definitions -/

namespace Command

namespace Options

variable (o : Options) (s : Surroundings)

/-- **The data of a run**: what the data argument spells, else what the data file spells, else no
fields at all. -/
inductive HasContext : Value → Prop
  | argument {text : Text} {context : Value} (hdata : given o.data = some text)
    (hjson : Value.ofJsonText text (o.standIns s) = .ok context) : HasContext context
  | file {name text : Text} {context : Value} (hdata : given o.data = none)
    (hfile : given o.dataFile = some name)
    (hread : s.readText (o.template = stdinName) name = .ok text)
    (hjson : Value.ofJsonText text (o.standIns s) = .ok context) : HasContext context
  | nothing (hdata : given o.data = none) (hfile : given o.dataFile = none) : HasContext .empty

/-- **The partials from a directory**, if one is given. -/
inductive HasFound : Fields Value → Prop
  | directory {name : Text} {names : List Text} {found : Fields Value}
    (hdir : given o.partialsDir = some name)
    (hfound : s.files.HoldsPartials (.ofText name) names found) : HasFound found
  | nothing (hdir : given o.partialsDir = none) : HasFound []

/-- Is standard input read before the partials file? -/
def readBeforePartials : Bool := o.template = stdinName ∨ o.dataName = some stdinName

/-- **The partials from a file**: the members of its object, if one is given and holds an object. -/
inductive HasMembers : Fields Value → Prop
  | object {name text : Text} {members : Fields Value} (hfile : given o.partialsFile = some name)
    (hread : s.readText o.readBeforePartials name = .ok text)
    (hjson : Value.ofJsonText text (o.standIns s) = .ok (.mapping members)) : HasMembers members
  | noObject {name text : Text} {v : Value} (hfile : given o.partialsFile = some name)
    (hread : s.readText o.readBeforePartials name = .ok text)
    (hjson : Value.ofJsonText text (o.standIns s) = .ok v)
    (hv : ∀ members, v ≠ .mapping members) : HasMembers []
  | nothing (hfile : given o.partialsFile = none) : HasMembers []

/-- **What a run gathers**: the text of the template, the data, and the partials, where each member of
the object in the partials file goes before what the directory has under its key. -/
structure Gathers (template : Text) (context : Value) (partials : Fields Value) : Prop where
  template : s.readText false o.template = .ok template
  context : o.HasContext s context
  keys : (Fields.keys partials).Nodup
  partials : ∃ found members, o.HasFound s found ∧ o.HasMembers s members ∧
    ∀ key, partials.lookup key = (members.lookup key).or (found.lookup key)

/-- The partials from a directory, loaded. -/
def loadFound : Job (Fields Value) :=
  match given o.partialsDir with
  | some name => loadDirectory s.files (.ofText name)
  | none => pure []

/-- The partials from a file, loaded and written over those from a directory. -/
def loadMembers (found : Fields Value) : Job (Fields Value) :=
  match given o.partialsFile with
  | none => return found
  | some name => do
    let text ← Traced.ofExcept (s.readText o.readBeforePartials name)
    match ← Traced.ofExcept (loadJson (o.standIns s) name text) with
    | .mapping members => return Fields.putAll found members
    | _ => do
      Traced.tell (.partialsIgnored name)
      return found

end Options

end Command

/-! ### Fields that hold the same -/

theorem Fields.lookup_reverse {α : Type} {fields : Fields α} (h : (Fields.keys fields).Nodup)
    (key : Text) : fields.reverse.lookup key = fields.lookup key := by
  have hreverse : (Fields.keys fields.reverse).Nodup := by
    rw [Fields.keys, List.map_reverse]
    exact List.nodup_reverse.2 h
  refine Option.ext fun v => ?_
  rw [Value.lookup_eq_some_iff_mem hreverse, Value.lookup_eq_some_iff_mem h, List.mem_reverse]

/-- Partials with the same texts under all keys render alike. -/
theorem render_congr_partials {fields fields' : Fields Value}
    (h : ∀ key, fields.lookup key = fields'.lookup key) (template : Text) (context : Value)
    (maxDepth : Option Int) :
    render template context { partials := .mapping fields, maxDepth := maxDepth } =
      render template context { partials := .mapping fields', maxDepth := maxDepth } := by
  have htext (name : Text) :
      Renderer.partialText? { partials := .mapping fields', maxDepth := maxDepth } name =
        Renderer.partialText? { partials := .mapping fields, maxDepth := maxDepth } name :=
    (Value.text?_lookup_congr h name).symm
  exact (Scope.Simulation.refl fun _ => True).renderTemplate (fun _ _ _ _ _ _ _ _ _ => trivial)
    htext rfl Renderer.nestingAllowance (fun _ _ _ _ => trivial) rfl

namespace Command

namespace Options

variable {o : Options} {s : Surroundings} {name text : Text} {context : Value}
  {found members partials : Fields Value}

/-! ### The data -/

theorem context_of_data (h : given o.data = some text) :
    o.context s = loadJson (o.standIns s) "--data".toList text := by
  simp only [Options.context, h]

theorem context_of_dataName (h : o.dataName = some name) :
    o.context s =
      (s.readText (o.template = stdinName) name).bind (loadJson (o.standIns s) name) := by
  have hdata : given o.data = none := by
    cases hd : given o.data with
    | none => rfl
    | some text => simp [dataName, hd] at h
  simp only [Options.context, hdata, h]
  rfl

theorem dataName_of_none (h : given o.data = none) : o.dataName = given o.dataFile := by
  simp only [dataName, h]

theorem loadJson_eq_ok_iff {standIns : StandIns} {source : Text} {v : Value} :
    loadJson standIns source text = .ok v ↔ Value.ofJsonText text standIns = .ok v :=
  mapError_eq_ok_iff

/-- **The data of a run** are what it loads. -/
theorem context_eq_ok_iff : o.context s = .ok context ↔ o.HasContext s context := by
  constructor
  · intro h
    cases hdata : given o.data with
    | some text =>
      rw [context_of_data hdata, loadJson_eq_ok_iff] at h
      exact .argument hdata h
    | none =>
      have hname := dataName_of_none hdata
      cases hfile : given o.dataFile with
      | some name =>
        rw [context_of_dataName (hname.trans hfile), bind_eq_ok_iff] at h
        obtain ⟨text, hread, hjson⟩ := h
        exact .file hdata hfile hread (loadJson_eq_ok_iff.1 hjson)
      | none =>
        simp only [Options.context, hdata, hname, hfile] at h
        cases h
        exact .nothing hdata hfile
  · intro h
    cases h with
    | argument hdata hjson =>
      rw [context_of_data hdata]
      exact loadJson_eq_ok_iff.2 hjson
    | file hdata hfile hread hjson =>
      rw [context_of_dataName ((dataName_of_none hdata).trans hfile), hread]
      exact loadJson_eq_ok_iff.2 hjson
    | nothing hdata hfile =>
      simp only [Options.context, hdata, (dataName_of_none hdata).trans hfile]

/-! ### The partials -/

theorem partials_eq (o : Options) (s : Surroundings) :
    o.partials s = o.loadFound s >>= o.loadMembers s := by
  unfold Options.partials loadFound loadMembers readBeforePartials
  cases given o.partialsDir <;> rfl

theorem hasFound_of_loadFound (h : (o.loadFound s).outcome = .ok found) : o.HasFound s found := by
  unfold loadFound at h
  cases hdir : given o.partialsDir with
  | none =>
    rw [hdir] at h
    cases h
    exact .nothing hdir
  | some name =>
    rw [hdir] at h
    obtain ⟨names, hholds⟩ := holdsPartials_of_loadDirectory h
    exact .directory hdir hholds

theorem HasFound.exists_loadFound (h : o.HasFound s found) :
    ∃ found', (o.loadFound s).outcome = .ok found' ∧
      ∀ key, found'.lookup key = found.lookup key := by
  unfold loadFound
  cases h with
  | nothing hdir => exact ⟨[], by rw [hdir]; rfl, fun _ => rfl⟩
  | @directory name names found hdir hfound =>
    obtain ⟨found', hload, hholds⟩ := exists_loadDirectory hfound.listed hfound.readable
    refine ⟨found', by rw [hdir]; exact hload, fun key => Option.ext fun v => ?_⟩
    exact (hholds.lookup_iff key v).trans (hfound.lookup_iff key v).symm

theorem HasFound.nodup_keys (h : o.HasFound s found) : (Fields.keys found).Nodup := by
  cases h with
  | directory hdir hfound => exact hfound.keys
  | nothing hdir => exact List.nodup_nil

theorem HasMembers.nodup_keys (h : o.HasMembers s members) : (Fields.keys members).Nodup := by
  cases h with
  | @object name text members hfile hread hjson =>
    have hproper : (Value.mapping members).Proper := by
      obtain ⟨j, -, hj⟩ := map_eq_ok_iff.1 hjson
      exact hj ▸ Value.proper_ofJson j
    exact (Value.proper_mapping_iff.1 hproper).1
  | noObject _ _ _ _ => exact List.nodup_nil
  | nothing _ => exact List.nodup_nil

theorem HasMembers.outcome_loadMembers (h : o.HasMembers s members) (found : Fields Value) :
    (o.loadMembers s found).outcome = .ok (Fields.putAll found members) := by
  unfold loadMembers
  cases h with
  | @object name text members hfile hread hjson =>
    simp [hfile, hread, loadJson_eq_ok_iff.2 hjson, Except.bind]
  | @noObject name text v hfile hread hjson hv =>
    simp only [hfile, hread, loadJson_eq_ok_iff.2 hjson, Traced.outcome_bind, Except.bind,
      Traced.outcome_ofExcept]
    cases v with
    | mapping members => exact absurd rfl (hv members)
    | null | scalar _ | sequence _ => rfl
  | nothing hfile =>
    rw [hfile]
    rfl

theorem exists_hasMembers_of_loadMembers
    (h : (o.loadMembers s found).outcome = .ok partials) : ∃ members, o.HasMembers s members := by
  unfold loadMembers at h
  cases hfile : given o.partialsFile with
  | none => exact ⟨[], .nothing hfile⟩
  | some name =>
    simp only [hfile, Traced.outcome_bind, Traced.outcome_ofExcept, bind_eq_ok_iff] at h
    obtain ⟨text, hread, v, hjson, -⟩ := h
    rw [loadJson_eq_ok_iff] at hjson
    cases v with
    | mapping members => exact ⟨members, .object hfile hread hjson⟩
    | null | scalar _ | sequence _ => exact ⟨[], .noObject hfile hread hjson (by simp)⟩

/-! ### Rendering what is gathered -/

/-- The stages of a run, one after the other. -/
theorem outcome_rendered_eq (o : Options) (s : Surroundings) : (o.rendered s).outcome =
    (s.readText false o.template).bind fun template => (o.context s).bind fun context =>
      (o.loadFound s).outcome.bind fun found => (o.loadMembers s found).outcome.bind fun partials =>
        (render template context
          { partials := .mapping partials, maxDepth := o.maxDepth }).outcome.mapError .template := by
  simp only [rendered, partials_eq, Traced.outcome_bind, Traced.outcome_ofExcept]
  cases s.readText false o.template with
  | error f => rfl
  | ok template =>
    cases o.context s with
    | error f => rfl
    | ok context => cases (o.loadFound s).outcome <;> rfl

/-- **What is gathered is rendered**, and nothing else comes of a run. -/
theorem rendered_eq_ok_iff {template : Text} (h : o.Gathers s template context partials) :
    (o.rendered s).outcome = .ok text ↔ (render template context
      { partials := .mapping partials, maxDepth := o.maxDepth }).outcome = .ok text := by
  obtain ⟨found, members, hfound, hmembers, hlookup⟩ := h.partials
  obtain ⟨found', hload, hfound'⟩ := hfound.exists_loadFound
  have hsame : ∀ key, partials.lookup key = (Fields.putAll found' members).lookup key := by
    intro key
    rw [hlookup, Fields.lookup_putAll, Fields.lookup_reverse hmembers.nodup_keys, hfound']
  rw [outcome_rendered_eq, h.template, context_eq_ok_iff.2 h.context, hload]
  simp only [Except.bind, hmembers.outcome_loadMembers, render_congr_partials hsame,
    mapError_eq_ok_iff]

/-- A run that renders has gathered what it renders. -/
theorem exists_gathers_of_rendered (h : (o.rendered s).outcome = .ok text) :
    ∃ template context partials, o.Gathers s template context partials := by
  simp only [outcome_rendered_eq, bind_eq_ok_iff] at h
  obtain ⟨template, htemplate, context, hcontext, loaded, hload, partials, hmembers, -⟩ := h
  have hfound := hasFound_of_loadFound hload
  obtain ⟨members, hmembers⟩ := exists_hasMembers_of_loadMembers hmembers
  refine ⟨template, context, Fields.putAll loaded members, htemplate,
    context_eq_ok_iff.1 hcontext, Fields.nodup_keys_putAll hfound.nodup_keys members, loaded, members,
    hfound, hmembers, fun key => ?_⟩
  rw [Fields.lookup_putAll, Fields.lookup_reverse hmembers.nodup_keys]

end Options

end Command

end Mustache
