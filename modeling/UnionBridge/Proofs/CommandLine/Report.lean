import UnionBridge.Proofs.CommandLine.Disk
import UnionBridge.Proofs.Mapping.Unplaced
import UnionBridge.Proofs.Module.Body

/-! What a command line leaves behind. A schema with mistakes changes no file and is reported in one of two ways, which
say the same; any other schema is written to every file that was asked for. -/
namespace UnionBridge

variable {d : Disk} {directory : Path} {a : Arguments} {o : Options} {c : Compiled} {e : CompileError}
  {es : List Effect} {source : String} {file : Option String}

/-! ### Which schemas are accepted -/

/-- Whether a text is accepted depends neither on the name of its file nor on a docstring. -/
theorem isOk_compile (source : String) (file doc file' doc' : Option String) :
    (compile source file doc).isOk = (compile source file' doc').isOk := by
  have himp (file doc file' doc' : Option String) (h : (compile source file doc).isOk) :
      (compile source file' doc').isOk := by
    cases hc : compile source file doc with
    | error e => simp [hc, Except.isOk, Except.toBool] at h
    | ok c =>
      obtain ⟨hparse, hdistinct, hplans, -⟩ := compile_eq_ok_iff.mp hc
      have hunplaced : List.Forall₂ (fun u (q : Plan) => q.Of c.schema.unplaced u.unplaced none)
          c.schema.destinations (c.plans.map Plan.unplaced) :=
        List.forall₂_map_right_iff.mpr (hplans.imp fun u p hp => hp.unplaced)
      obtain ⟨plans, hplans', -⟩ := Plan.forall₂_placed hunplaced file'
      have hc' : compile source file' doc' = .ok ⟨c.schema, plans, .ofPlans c.schema plans file' doc'⟩ :=
        compile_eq_ok_iff.mpr ⟨hparse, hdistinct, hplans', rfl⟩
      rw [hc']
      rfl
  exact Bool.eq_iff_iff.mpr ⟨himp file doc file' doc', himp file' doc' file doc⟩

/-! ### Carrying effects out -/

namespace Effect

def out? : Effect → Option Raw
  | .out text => some text
  | _ => none

def err? : Effect → Option Raw
  | .err text => some text
  | _ => none

def write? : Effect → Option (Path × Raw)
  | .write p text => some (p, text)
  | _ => none

end Effect

/-- A file to be written, given its content as a text. -/
def Path.holding (w : Path × String) : Path × Raw := (w.1, Raw.ofString w.2)

namespace Carried

variable {ws : List (Path × String)}

/-- Effects that write texts to different files are all carried out. -/
theorem foldl_step (c : Carried) (hc : c.refused = none) (hws : es.filterMap Effect.write? = ws.map Path.holding)
    (h : c.disk.Writable directory (ws.map Prod.fst)) :
    ∃ d', es.foldl (step directory) c =
        ⟨c.out ++ (es.filterMap Effect.out?).flatten, c.err ++ (es.filterMap Effect.err?).flatten, d', none⟩ ∧
      c.disk.Wrote d' directory ws := by
  induction es generalizing c ws with
  | nil =>
    obtain ⟨out, err, disk, refused⟩ := c
    obtain rfl : refused = none := hc
    obtain rfl : ws = [] := by simpa using hws.symm
    exact ⟨disk, by simp, .nil⟩
  | cons e es ih =>
    cases e with
    | out text =>
      obtain ⟨d', hd', hwrote⟩ := ih { c with out := c.out ++ text } hc hws h
      refine ⟨d', ?_, hwrote⟩
      simpa [step, hc, List.filterMap_cons, Effect.out?, Effect.err?, List.append_assoc] using hd'
    | err text =>
      obtain ⟨d', hd', hwrote⟩ := ih { c with err := c.err ++ text } hc hws h
      refine ⟨d', ?_, hwrote⟩
      simpa [step, hc, List.filterMap_cons, Effect.out?, Effect.err?, List.append_assoc] using hd'
    | write p raw =>
      obtain ⟨⟨q, text⟩, ws, rfl, hhead, htail⟩ := List.map_eq_cons_iff.mp hws.symm
      obtain ⟨rfl, rfl⟩ := Prod.mk.inj hhead
      obtain ⟨name, hname⟩ := Option.isSome_iff_exists.mp (h.1 q List.mem_cons_self)
      obtain ⟨d', hd', hwrote⟩ := ih { c with disk := c.disk.store name text.toUTF8.toList } hc htail.symm (h.store hname)
      refine ⟨d', ?_, .cons h hname hwrote⟩
      simpa [step, hc, Disk.write_of_target? hname, List.filterMap_cons, Effect.out?, Effect.err?] using hd'

theorem views_ofEffects (hws : es.filterMap Effect.write? = ws.map Path.holding)
    (h : d.Writable directory (ws.map Prod.fst)) :
    (ofEffects d directory es).out = (es.filterMap Effect.out?).flatten ∧
      (ofEffects d directory es).err = (es.filterMap Effect.err?).flatten ∧
      (ofEffects d directory es).refused = none ∧ d.Wrote (ofEffects d directory es).disk directory ws := by
  obtain ⟨d', hd', hwrote⟩ := foldl_step { disk := d } rfl hws h
  rw [show ofEffects d directory es = _ from hd']
  exact ⟨rfl, rfl, rfl, hwrote⟩

/-- Where nothing is to be written, the disk stays as it is, and nothing is refused. -/
theorem disk_ofEffects (h : es.filterMap Effect.write? = []) :
    (ofEffects d directory es).disk = d ∧ (ofEffects d directory es).refused = none := by
  have hall (c : Carried) :
      (es.foldl (step directory) c).disk = c.disk ∧ (es.foldl (step directory) c).refused = c.refused := by
    induction es generalizing c with
    | nil => exact ⟨rfl, rfl⟩
    | cons e es ih =>
      rw [List.foldl_cons]
      cases e with
      | out text | err text =>
        obtain ⟨hdisk, hrefused⟩ := ih h (step directory c _)
        rw [hdisk, hrefused, step]
        split <;> exact ⟨rfl, rfl⟩
      | write p text => cases h
  exact hall _

/-- Nothing is carried out after a write that was refused. -/
theorem foldl_step_of_refused (c : Carried) (h : c.refused.isSome) : es.foldl (step directory) c = c := by
  induction es with
  | nil => rfl
  | cons e es ih =>
    have hstep : step directory c e = c := if_pos h
    rw [List.foldl_cons, hstep, ih]

theorem ofEffects_refused {d' : Disk} {p : Path} {raw : Raw} {f : WriteFault} {later : List Effect}
    (hes : es.filterMap Effect.write? = []) (h : d.write directory p raw = (d', some f)) :
    ofEffects d directory (es ++ .write p raw :: later) =
      { ofEffects d directory es with disk := d', refused := some (p, f) } := by
  obtain ⟨hdisk, hrefused⟩ : (ofEffects d directory es).disk = d ∧ (ofEffects d directory es).refused = none :=
    disk_ofEffects hes
  have hstep : step directory (ofEffects d directory es) (.write p raw) =
      { ofEffects d directory es with disk := d', refused := some (p, f) } := by
    simp only [step, hrefused, hdisk, h, Option.isSome_none, Bool.false_eq_true, if_false, Option.map_some]
  rw [ofEffects, List.foldl_append, List.foldl_cons]
  change later.foldl (step directory) (step directory (ofEffects d directory es) (.write p raw)) = _
  rw [hstep]
  exact foldl_step_of_refused _ rfl

end Carried

/-! ### Diagnostics as JSON -/

namespace Json

def member? (key : String) : Json → Option Json
  | .object members => (members.find? fun m => m.1 = key).map Prod.snd
  | _ => none

def text? : Json → Option String
  | .text s => some s
  | _ => none

def int? : Json → Option Int
  | .int n => some n
  | _ => none

def items? : Json → Option (List Json)
  | .array items => some items
  | _ => none

/-- The lines that a reader of text is shown for a diagnostic that is given as JSON. -/
def lines? (j : Json) : Option (List String) := do
  let file := (Span.namedFile ((j.member? "file").bind text?)).getD "<schema>"
  let line := (((j.member? "line").bind int?).map toString).getD "?"
  let column := (((j.member? "column").bind int?).map toString).getD "?"
  let severity ← (j.member? "severity").bind text?
  let message ← (j.member? "message").bind text?
  let notes ← ((j.member? "notes").bind items?).bind fun items => items.mapM text?
  some (s!"{file}:{line}:{column}: {severity}: {message}" :: notes.map fun n => s!"  note: {n}")

theorem text?_ofText? (s : Option String) : (ofText? s).text? = s := by
  cases s <;> rfl

theorem int?_ofInt? (n : Option Int) : (ofInt? n).int? = n := by
  cases n <;> rfl

theorem mapM_text? (texts : List String) : (texts.map Json.text).mapM text? = some texts := by
  induction texts with
  | nil => rfl
  | cons s texts ih => simp [ih, text?]

end Json

/-- The two forms of a diagnostic say the same. -/
theorem Diagnostic.lines?_json (x : Diagnostic) : (x.json file).lines? = some (x.lines file) := by
  have hfile : ((x.json file).member? "file").bind Json.text? = x.file file := Json.text?_ofText? _
  have hline : ((x.json file).member? "line").bind Json.int? = x.span.line := Json.int?_ofInt? _
  have hcolumn : ((x.json file).member? "column").bind Json.int? = x.span.column := Json.int?_ofInt? _
  have hseverity : ((x.json file).member? "severity").bind Json.text? = some x.severity := rfl
  have hmessage : ((x.json file).member? "message").bind Json.text? = some x.message := rfl
  have hnotes : (((x.json file).member? "notes").bind Json.items?).bind (fun items => items.mapM Json.text?) =
      some x.notes := Json.mapM_text? x.notes
  rw [Json.lines?, hfile, hline, hcolumn, hseverity, hmessage, hnotes]
  have htext (s : String) : toString s = s := rfl
  simp [lines, format, Span.short, htext, String.append_assoc]

/-! ### Whole command lines -/

namespace Arguments

/-- Where a second copy of the module goes: into the working directory, if an option or the environment says so. -/
def dumpPath? (a : Arguments) (directory : Path) (dumpVariable : Option String) : Option Path :=
  if a.dump || dumpVariable.any Options.isOn then some (directory.child Options.dumpFile) else none

/-- The files that some arguments ask for, with what they are to hold. -/
def wanted (a : Arguments) (dump : Option Path) (c : Compiled) : List (Path × String) :=
  dump.toList.map (·, c.code) ++ a.table.toList.map (·, Plan.textOfAll c.plans) ++ a.output.toList.map (·, c.code)

theorem dump_options (directory : Path) (dumpVariable : Option String) :
    (a.options directory dumpVariable).dump = a.dumpPath? directory dumpVariable := by
  cases hdump : a.dump <;> cases dumpVariable <;> simp [options, Options.ofEnvironment, dumpPath?, hdump]

theorem map_fst_wanted (dump : Option Path) :
    (a.wanted dump c).map Prod.fst = dump.toList ++ a.table.toList ++ a.output.toList := by
  simp [wanted, Function.comp_def]

end Arguments

namespace Report

variable {records : List LogRecord} {docstring : Option String}

/-- What shows of progress. -/
def progress (a : Arguments) (records : List LogRecord) : String :=
  if a.verbose then String.join (records.map fun r => r.text ++ "\n") else ""

/-- Texts put out one after the other. -/
theorem flatten_ofString (texts : List String) : (texts.map Raw.ofString).flatten = Raw.ofString (String.join texts) := by
  induction texts with
  | nil => rfl
  | cons s texts ih =>
    rw [List.map_cons, List.flatten_cons, ih, String.join_cons, Raw.ofString_append]

/-- Progress shows on neither the output nor the disk. -/
theorem views_log :
    (log a records).filterMap Effect.out? = [] ∧ (log a records).filterMap Effect.write? = [] := by
  rw [log]
  split <;> simp [Effect.out?, Effect.write?, Effect.errText]

theorem err?_log : ((log a records).filterMap Effect.err?).flatten = Raw.ofString (progress a records) := by
  rw [log, progress]
  split
  · rw [← flatten_ofString]
    simp [List.filterMap_map, Function.comp_def, Effect.err?, Effect.errText]
  · rfl

/-- A docstring that is a text stands in the code as it is compiled. -/
theorem codeWith_eq : c.codeWith (docstring.map Raw.ofString) = Raw.ofString c.code := by
  cases docstring <;> simp [Compiled.codeWith, Option.filter]

theorem views_dumpEffects (hdoc : o.docstring = docstring.map Raw.ofString) :
    (dumpEffects a o c).filterMap Effect.out? = [] ∧
      (dumpEffects a o c).filterMap Effect.write? = (o.dump.toList.map (·, c.code)).map Path.holding := by
  rw [dumpEffects, hdoc, codeWith_eq]
  split
  · rename_i h
    exact ⟨rfl, by rw [h]; rfl⟩
  · rename_i p h
    simp only [List.filterMap_cons, Effect.out?, Effect.write?, views_log, h, Option.toList_some, List.map_cons,
      List.map_nil, Path.holding, and_self]

theorem views_tableEffects : (tableEffects a c).filterMap Effect.out? = [] ∧
    (tableEffects a c).filterMap Effect.write? = (a.table.toList.map (·, Plan.textOfAll c.plans)).map Path.holding := by
  rw [tableEffects]
  split
  · rename_i h
    exact ⟨rfl, by rw [h]; rfl⟩
  · rename_i p h
    exact ⟨rfl, by rw [h]; rfl⟩

theorem views_codeEffects (hdoc : o.docstring = docstring.map Raw.ofString) :
    (codeEffects a o c).filterMap Effect.out? =
        (if a.output.isNone && !a.json then [c.code] else []).map Raw.ofString ∧
      (codeEffects a o c).filterMap Effect.write? = (a.output.toList.map (·, c.code)).map Path.holding := by
  rw [codeEffects, hdoc, codeWith_eq]
  split
  · rename_i p h
    simp only [List.filterMap_cons, Effect.out?, Effect.write?, views_log, h, Option.isNone_some, Bool.false_and,
      Bool.false_eq_true, if_false, Option.toList_some, List.map_cons, List.map_nil, Path.holding, and_self]
  · rename_i h
    cases hjson : a.json <;> exact ⟨by rw [h]; rfl, by rw [h]; rfl⟩

/-- What the report on an accepted schema shows and writes. -/
theorem views_succeeded (hdoc : o.docstring = docstring.map Raw.ofString) :
    (succeeded a o c).filterMap Effect.out? =
        (if a.json then [(Json.object [("exit_code", .int 0), ("diagnostics", .array [])]).render ++ "\n"]
        else if a.output.isNone then [c.code] else []).map Raw.ofString ∧
      (succeeded a o c).filterMap Effect.write? = (a.wanted o.dump c).map Path.holding := by
  simp only [succeeded, List.filterMap_append, views_log, views_dumpEffects hdoc, views_tableEffects,
    views_codeEffects hdoc, Arguments.wanted, List.map_append, List.nil_append]
  cases hjson : a.json <;> simp [Effect.out?, Effect.write?, Effect.outText, summary, List.filterMap_cons]

/-- The lines of some diagnostics as they are printed. -/
def printed (xs : List Diagnostic) (file : Option String) : String :=
  String.join ((xs.flatMap (·.lines file)).map (· ++ "\n"))

theorem write?_failed : (failed a e).filterMap Effect.write? = [] := by
  rw [failed]
  split <;> simp [Effect.write?, Effect.errText, Effect.outText, summary]

theorem views_failed_text (h : a.json = false) :
    (failed a e).filterMap Effect.out? = [] ∧
      ((failed a e).filterMap Effect.err?).flatten = Raw.ofString (printed e.diagnostics (some a.source.text)) := by
  rw [printed, ← flatten_ofString]
  simp [failed, h, Effect.out?, Effect.err?, Effect.errText, List.filterMap_map, Function.comp_def]

theorem views_failed_json (h : a.json) :
    (failed a e).filterMap Effect.err? = [] ∧ (failed a e).filterMap Effect.out? =
      [Raw.ofString ((Json.object [("exit_code", .int 1),
        ("diagnostics", .array (e.diagnostics.map (·.json (some a.source.text))))]).render ++ "\n")] := by
  simp [failed, h, Effect.out?, Effect.err?, Effect.outText, summary]

theorem mapM_lines? (xs : List Diagnostic) (file : Option String) :
    (xs.map (·.json file)).mapM Json.lines? = some (xs.map (·.lines file)) := by
  induction xs with
  | nil => rfl
  | cons x xs ih => simp [ih, Diagnostic.lines?_json]

theorem ofCommandLine_eq {texts : List Raw} {dumpVariable : Option String}
    (hparse : Arguments.parse texts = .ok (.compile a)) (hread : d.read directory a.source = .ok source) :
    ofCommandLine texts directory dumpVariable (d.read directory) =
      onText a (a.options directory dumpVariable) source := by
  rw [ofCommandLine, hparse]
  simp only [hread, ofArguments]

theorem ending_onText :
    (onText a o source).ending =
      .exit (if (compile source (some a.source.text) (o.docstring.bind Raw.text?)).isOk then 0 else 1) := by
  rw [onText]
  cases compile source (some a.source.text) (o.docstring.bind Raw.text?) <;> rfl

theorem bind_text?_docstring (hdoc : o.docstring = docstring.map Raw.ofString) : o.docstring.bind Raw.text? = docstring := by
  rw [hdoc]
  cases docstring <;> simp

section Carried

variable (hdoc : o.docstring = docstring.map Raw.ofString)
include hdoc

variable (d directory) in
/-- The report on a rejected text, carried out. -/
theorem left_of_error (hc : compile source (some a.source.text) docstring = .error e) :
    let left := Carried.ofEffects d directory (onText a o source).effects
    left.refused = none ∧ left.disk = d ∧ ∃ progress, (a.verbose = false → progress = "") ∧
      (a.json = false →
        left.out = [] ∧ left.err = Raw.ofString (progress ++ printed e.diagnostics (some a.source.text))) ∧
      (a.json → left.err = Raw.ofString progress ∧ ∃ entries : List Json,
        entries.mapM Json.lines? = some (e.diagnostics.map (·.lines (some a.source.text))) ∧
        left.out = Raw.ofString
          ((Json.object [("exit_code", .int 1), ("diagnostics", .array entries)]).render ++ "\n")) := by
  have heffects : (onText a o source).effects =
      log a (planningRecords source (some a.source.text)) ++ failed a e := by
    rw [onText, bind_text?_docstring hdoc, hc]
  generalize (onText a o source).effects = es at heffects
  subst heffects
  intro left
  have hwrites : (log a (planningRecords source (some a.source.text)) ++ failed a e).filterMap Effect.write? = [] := by
    rw [List.filterMap_append, views_log.2, write?_failed, List.nil_append]
  have hnone : d.Writable directory (([] : List (Path × String)).map Prod.fst) := ⟨by simp, by simp⟩
  obtain ⟨hout, herr, hrefused, -⟩ := Carried.views_ofEffects hwrites hnone
  rw [List.filterMap_append, views_log.1, List.nil_append] at hout
  rw [List.filterMap_append, List.flatten_append, err?_log] at herr
  refine ⟨hrefused, (Carried.disk_ofEffects hwrites).1, progress a (planningRecords source (some a.source.text)),
    fun h => ?_, fun h => ⟨?_, ?_⟩, fun h => ⟨?_, _, mapM_lines? e.diagnostics _, ?_⟩⟩
  · simp [progress, h]
  · rw [hout, (views_failed_text h).1]
    rfl
  · rw [herr, (views_failed_text h).2, Raw.ofString_append]
  · rw [herr, (views_failed_json h).1]
    exact List.append_nil _
  · rw [hout, (views_failed_json h).2]
    exact List.append_nil _

/-- The report on an accepted text, carried out. -/
theorem left_of_ok (hc : compile source (some a.source.text) docstring = .ok c)
    (hwritable : d.Writable directory (o.dump.toList ++ a.table.toList ++ a.output.toList)) :
    let left := Carried.ofEffects d directory (onText a o source).effects
    left.refused = none ∧ d.Wrote left.disk directory (a.wanted o.dump c) ∧
      left.out = Raw.ofString
        (if a.json then (Json.object [("exit_code", .int 0), ("diagnostics", .array [])]).render ++ "\n"
        else if a.output.isNone then c.code else "") := by
  have heffects : (onText a o source).effects =
      log a (planningRecords source (some a.source.text)) ++ succeeded a o c := by
    rw [onText, bind_text?_docstring hdoc, hc]
  generalize (onText a o source).effects = es at heffects
  subst heffects
  intro left
  have hwrites : (log a (planningRecords source (some a.source.text)) ++ succeeded a o c).filterMap Effect.write? =
      (a.wanted o.dump c).map Path.holding := by
    rw [List.filterMap_append, views_log.2, (views_succeeded hdoc).2, List.nil_append]
  obtain ⟨hout, -, hrefused, hwrote⟩ :=
    Carried.views_ofEffects hwrites (by rwa [Arguments.map_fst_wanted])
  refine ⟨hrefused, hwrote, hout.trans ?_⟩
  rw [List.filterMap_append, views_log.1, (views_succeeded hdoc).1, List.nil_append, flatten_ofString]
  cases a.json <;> cases a.output.isNone <;> simp

end Carried

/-- A command line does all that it was asked for or nothing, as long as its docstring is a text. Which of the two depends
on the text of the schema alone. The mistakes that a rejected text is reported with are the same in both forms of output,
and change no file; the module of an accepted one is in every file that was asked for, no other file changes, and the output
holds what is not in one. -/
theorem all_or_nothing {texts : List Raw} {dumpVariable : Option String}
    (hparse : Arguments.parse texts = .ok (.compile a)) (hdoc : a.docstring = docstring.map Raw.ofString)
    (hread : d.read directory a.source = .ok source)
    (hwritable : d.Writable directory
      ((a.dumpPath? directory dumpVariable).toList ++ a.table.toList ++ a.output.toList)) :
    let report := ofCommandLine texts directory dumpVariable (d.read directory)
    let left := Carried.ofEffects d directory report.effects
    let file := some a.source.text
    report.ending = .exit (if (compile source none none).isOk then 0 else 1) ∧ left.refused = none ∧
      (∀ e, compile source file docstring = .error e →
        left.disk = d ∧ ∃ progress, (a.verbose = false → progress = "") ∧
          (a.json = false → left.out = [] ∧ left.err = Raw.ofString (progress ++ printed e.diagnostics file)) ∧
          (a.json → left.err = Raw.ofString progress ∧ ∃ entries : List Json,
            entries.mapM Json.lines? = some (e.diagnostics.map (·.lines file)) ∧
            left.out = Raw.ofString
              ((Json.object [("exit_code", .int 1), ("diagnostics", .array entries)]).render ++ "\n"))) ∧
      ∀ c, compile source file docstring = .ok c →
        d.Wrote left.disk directory (a.wanted (a.dumpPath? directory dumpVariable) c) ∧
          left.out = Raw.ofString
            (if a.json then (Json.object [("exit_code", .int 0), ("diagnostics", .array [])]).render ++ "\n"
            else if a.output.isNone then c.code else "") := by
  intro report left file
  have hreport : report = onText a (a.options directory dumpVariable) source := ofCommandLine_eq hparse hread
  have hok := isOk_compile source none none file docstring
  have hdump := Arguments.dump_options (a := a) directory dumpVariable
  have hoption : (a.options directory dumpVariable).docstring = docstring.map Raw.ofString := hdoc
  have hending : report.ending = .exit (if (compile source none none).isOk then 0 else 1) := by
    rw [hok, hreport, ending_onText, bind_text?_docstring hoption]
  cases hc : compile source file docstring with
  | error e =>
    obtain ⟨hrefused, hdisk, hshown⟩ := left_of_error d directory hoption hc
    rw [← hreport] at hrefused hdisk hshown
    refine ⟨hending, hrefused, ?_, fun c h => nomatch h⟩
    rintro _ ⟨⟩
    exact ⟨hdisk, hshown⟩
  | ok c =>
    have hroom : d.Writable directory
        ((a.options directory dumpVariable).dump.toList ++ a.table.toList ++ a.output.toList) :=
      hdump ▸ hwritable
    obtain ⟨hrefused, hwrote, hout⟩ := left_of_ok hoption hc hroom
    rw [← hreport] at hrefused hwrote hout
    refine ⟨hending, hrefused, fun e h => (nomatch h), ?_⟩
    rintro _ ⟨⟩
    exact ⟨hdump ▸ hwrote, hout⟩

def wantedText : String := "union S\x7bA(int)\x7d @from_union(S) union D\x7bA(int)\x7d"

def wantedDirectory : Path := ⟨"/", ["w"]⟩

/-- A directory with the schema and room for one of the files. -/
def wantedDisk : Disk := ⟨[(["s"], wantedText.toUTF8.toList)], [["out"]]⟩

def wantedTexts : List Raw := ["s", "-o", "out/m", "--emit-table", "t", "--dump", "--json"].map Raw.ofString

def wantedArguments : Arguments where
  source := ⟨"", ["s"]⟩
  output := some ⟨"", ["out", "m"]⟩
  table := some ⟨"", ["t"]⟩
  dump := true
  json := true

theorem isOk_wanted : (compile wantedText (some "s") none).isOk := by decide +kernel

theorem parse_wanted : Arguments.parse wantedTexts = .ok (.compile wantedArguments) := by decide +kernel

theorem read_wanted : wantedDisk.read wantedDirectory wantedArguments.source = .ok wantedText := by decide +kernel

theorem writable_wanted :
    wantedDisk.Writable wantedDirectory ((wantedArguments.dumpPath? wantedDirectory none).toList ++
      wantedArguments.table.toList ++ wantedArguments.output.toList) :=
  ⟨by decide, by decide⟩

theorem all_or_nothing_wanted :
    let report := ofCommandLine wantedTexts wantedDirectory none (wantedDisk.read wantedDirectory)
    let left := Carried.ofEffects wantedDisk wantedDirectory report.effects
    report.ending = .exit 0 ∧ ∃ c, compile wantedText (some "s") none = .ok c ∧
      left.disk.Holds wantedDirectory ⟨"", ["out", "m"]⟩ c.code ∧
      left.disk.Holds wantedDirectory ⟨"", ["t"]⟩ (Plan.textOfAll c.plans) ∧
      left.disk.Holds wantedDirectory (wantedDirectory.child "casemap_output.py") c.code := by
  dsimp only
  have hdoc : wantedArguments.docstring = (none : Option String).map Raw.ofString := rfl
  have hfile : wantedArguments.source.text = "s" := rfl
  have hok := isOk_wanted
  obtain ⟨hending, -, -, haccepted⟩ := all_or_nothing parse_wanted hdoc read_wanted writable_wanted
  rw [isOk_compile wantedText none none (some "s") none, if_pos hok] at hending
  rw [hfile] at haccepted
  cases hc : compile wantedText (some "s") none with
  | error e => simp [hc, Except.isOk, Except.toBool] at hok
  | ok c =>
    obtain ⟨hwrote, -⟩ := haccepted c hc
    have hwanted : wantedArguments.wanted (wantedArguments.dumpPath? wantedDirectory none) c =
        [(wantedDirectory.child "casemap_output.py", c.code), (⟨"", ["t"]⟩, Plan.textOfAll c.plans),
          (⟨"", ["out", "m"]⟩, c.code)] := rfl
    have hholds := hwrote.holds
    rw [hwanted] at hholds
    obtain ⟨hdump, htable, houtput, -⟩ := by simpa only [List.forall_mem_cons] using hholds
    exact ⟨hending, c, rfl, houtput, htable, hdump⟩

/-! ### A docstring that is no text -/

/-- A docstring that is no text stands where one that is a text would stand. -/
theorem code_around {s : String} (hs : s ≠ "") (hc : compile source file (some s) = .ok c) :
    c.code = c.module.textBefore ++ s ++ c.module.textAfter := by
  obtain ⟨-, -, -, hmodule⟩ := compile_eq_ok_iff.mp hc
  have hdoc : c.module.docstring = s := by simp [hmodule, Module.ofPlans, Option.filter, hs]
  rw [← hdoc]
  exact c.module.text_around

theorem encode_codeWith {doc : Raw} (h : doc.text? = none) : ∃ e, (c.codeWith (some doc)).encode = .error e := by
  have hcode : c.codeWith (some doc) = Raw.ofString c.module.textBefore ++ doc ++ Raw.ofString c.module.textAfter := by
    simp [Compiled.codeWith, Option.filter, h]
  rw [hcode, Raw.encode, Raw.text?_append_append h]
  exact ⟨_, rfl⟩

/-- With such a docstring, the file for the code of an accepted schema is left empty, and the command line breaks off. -/
theorem left_of_stray {doc : Raw} {p : Path} {name : List String} (hdoc : o.docstring = some doc)
    (hstray : doc.text? = none) (hc : compile source (some a.source.text) none = .ok c) (hdump : o.dump = none)
    (htable : a.table = none) (houtput : a.output = some p) (hname : d.target? directory p = some name) :
    let left := Carried.ofEffects d directory (onText a o source).effects
    (∃ e, left.refused = some (p, .encoding e)) ∧ left.disk = d.store name [] := by
  obtain ⟨e, he⟩ := encode_codeWith (c := c) hstray
  have hbind : o.docstring.bind Raw.text? = none := by rw [hdoc, Option.bind_some, hstray]
  have heffects : (onText a o source).effects =
      (log a (planningRecords source (some a.source.text)) ++ log a [c.compiledRecord a.source.text]) ++
        .write p (c.codeWith (some doc)) :: (log a [⟨.info, "casemap.casemapc", s!"wrote {p}"⟩] ++
          if a.json then [summary 0 []] else []) := by
    rw [onText, hbind, hc]
    simp only [succeeded, dumpEffects, tableEffects, codeEffects, hdump, htable, houtput, hdoc, List.append_nil,
      List.append_assoc, List.cons_append]
  generalize (onText a o source).effects = es at heffects
  subst heffects
  intro left
  have hleft : left = { (Carried.ofEffects d directory
      (log a (planningRecords source (some a.source.text)) ++ log a [c.compiledRecord a.source.text])) with
        disk := d.store name [], refused := some (p, .encoding e) } := by
    have hwrites : (log a (planningRecords source (some a.source.text)) ++
        log a [c.compiledRecord a.source.text]).filterMap Effect.write? = [] := by
      rw [List.filterMap_append, views_log.2, views_log.2, List.nil_append]
    exact Carried.ofEffects_refused hwrites (Disk.write_of_stray hname he)
  exact ⟨⟨e, by rw [hleft]⟩, by rw [hleft]⟩

def strayTexts : List Raw := ["s", "-o", "out/m", "--docstring"].map Raw.ofString ++ [[.stray 0xff]]

def strayArguments : Arguments where
  source := ⟨"", ["s"]⟩
  output := some ⟨"", ["out", "m"]⟩
  docstring := some [.stray 0xff]

/-- An accepted schema whose code is in no file: the one that was asked for is there, but empty. -/
theorem accepted_but_unwritten :
    let report := ofCommandLine strayTexts wantedDirectory none (wantedDisk.read wantedDirectory)
    let left := Carried.ofEffects wantedDisk wantedDirectory report.effects
    (compile wantedText (some "s") none).isOk ∧
      wantedDisk.Writable wantedDirectory [⟨"", ["out", "m"]⟩] ∧
      (∃ e, left.refused = some (⟨"", ["out", "m"]⟩, .encoding e)) ∧ left.disk.file? ["out", "m"] = some [] := by
  dsimp only
  have hparse : Arguments.parse strayTexts = .ok (.compile strayArguments) := by decide +kernel
  have hread : wantedDisk.read wantedDirectory strayArguments.source = .ok wantedText := read_wanted
  have hfile : strayArguments.source.text = "s" := rfl
  have hname : wantedDisk.target? wantedDirectory ⟨"", ["out", "m"]⟩ = some ["out", "m"] := rfl
  have hok := isOk_wanted
  cases hc : compile wantedText (some "s") none with
  | error e => simp [hc, Except.isOk, Except.toBool] at hok
  | ok c =>
    have hdoc : (strayArguments.options wantedDirectory none).docstring = some [.stray 0xff] := rfl
    have hstray : Raw.text? [.stray 0xff] = none := rfl
    have hcompiled : compile wantedText (some strayArguments.source.text) none = .ok c := by
      rw [hfile]
      exact hc
    obtain ⟨hrefused, hdisk⟩ := left_of_stray hdoc hstray hcompiled rfl rfl rfl hname
    rw [← ofCommandLine_eq hparse hread] at hrefused hdisk
    refine ⟨rfl, ⟨by decide, by decide⟩, hrefused, ?_⟩
    rw [hdisk, Disk.file?_store, if_pos rfl]

end Report

end UnionBridge
