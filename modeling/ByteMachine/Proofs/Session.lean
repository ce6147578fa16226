import ByteMachine.Proofs.Diagnostic
import ByteMachine.Proofs.Recurrence
import ByteMachine.Session

/-!
# What a session shows

`Session.Reports` lists how a session that runs a program without a trace can end, by what reading
the path gave and, if that is a source, by what the machine makes of its bytes: the exit status, and
everything on the two output streams. Each failure is reported once and in one way, a malformed line
by its diagnostic, which is written out line by line, and every other failure by a record.

A session is followed from its end. Its transcript is a list of events, and each stream a view of
it; what the view makes of the steps of a run follows from what it makes of the printed values
(`join_observedIn`). That the session observes its run in another way than a plain run does not
matter, because observing changes nothing (`exists_runWith`).
-/

namespace ByteMachine

/-- Values as they are printed, each on a line of its own. -/
def printedLines (values : List UInt8) : String :=
  String.join (values.map fun value => toString value.toNat ++ "\n")

namespace Machine

variable {ε ε' : Type}

/-- However a run is observed, it is the same run. -/
theorem exists_runWith {m : Machine} {observer : Observer ε} {run : Run ε}
    (h : m.runWith observer = some run) (other : Observer ε') :
    ∃ n, run.observed.toList = m.observedIn observer n ∧
      m.runWith other = some ⟨run.result, run.machine, (m.observedIn other n).toArray⟩ := by
  obtain ⟨n, hruns, hend, hmachine, hobserved⟩ := runWith_eq_some h
  rw [hmachine]
  exact ⟨n + 1, hobserved, hruns.runWith_eq_of_ending hend other⟩

/-- A run that does not end does not end under any observer. -/
theorem runWith_eq_none {m : Machine} {observer : Observer ε} (h : m.runWith observer = none)
    (other : Observer ε') : m.runWith other = none :=
  runWith_eq_none_iff.2 (runWith_eq_none_iff.1 h)

/-- Loading a program into the initial machine fails only if it is too large. -/
theorem load_initial (bytes : List UInt8) :
    (Exec.load bytes).apply initial =
      if bytes.length ≤ memorySize then ⟨.ok (), loaded bytes, []⟩
      else ⟨.error (.programTooLarge bytes.length memorySize), initial, []⟩ := by
  by_cases h : bytes.length ≤ memorySize
  · rw [if_pos h]
    simp [loaded, Exec.apply, Exec.load, Memory.load, h]
  · rw [if_neg h]
    simp [Exec.apply, Exec.load, Memory.load, h]

end Machine

namespace Session

open Machine

/-! ## What is to be shown -/

/-- A record of an error, as a configuration has it written. -/
def errorRecord (config : Config) (colour : Bool) (stamp message : String) : String :=
  let line := (if config.timestamps then stamp ++ " " else "") ++ "[ERROR] " ++ message ++ "\n"
  if colour then Log.plainEscape ++ Log.Level.error.escapes ++ line ++ Log.plainEscape else line

/-- How a run of the program at a path ends, by what reading the path gave: the number of the exit
status, and what is on standard output and on standard error. A record of an error is written by
`record`. -/
inductive Reports (record : String → String) (path : String) :
    ReadResult → UInt32 → String → String → Prop
  | missing : Reports record path .missing 2 "" (record ("file not found: " ++ path))
  | failed (reason : String) :
      Reports record path (.failed reason) 1 "" (record (LoadError.unreadable path reason).message)
  | notText {bytes : ByteArray} (h : ∀ text : String, bytes ≠ text.toUTF8) :
      Reports record path (.contents bytes) 1 ""
        (record (LoadError.unreadable path "stream did not contain valid UTF-8").message)
  /-- The diagnostic quotes the line of the source that has the number of the malformed line. -/
  | malformed {text : String} {m : Malformed} {quoted : List Char}
      (h : Source.FirstMalformed text.toList m)
      (hquoted : Diagnostic.IsLine text.toList m.line quoted) :
      Reports record path (.contents text.toUTF8) 1 ""
        (String.join ([
          "error: invalid number '" ++ m.token ++ "'",
          " --> " ++ path ++ ":" ++ toString m.line ++ ":" ++ toString m.offset,
          "  |",
          String.ofList (List.replicate (4 - (toString m.line).length) ' ') ++ toString m.line ++
            " | " ++ String.ofList quoted,
          "  | " ++ String.ofList (List.replicate (m.offset - 1) ' ') ++ "^"].map (· ++ "\n")))
  | tooLarge {text : String} {bytes : List UInt8} (h : Source.Spells text.toList bytes)
      (hsize : 256 < bytes.length) :
      Reports record path (.contents text.toUTF8) 3 ""
        (record (Fault.programTooLarge bytes.length 256).message)
  | faulted {text : String} {bytes : List UInt8} {run : Run UInt8} {fault : Fault}
      (h : Source.Spells text.toList bytes) (hsize : bytes.length ≤ 256)
      (hrun : (loaded bytes).run = some run) (hfault : run.result = .error fault) :
      Reports record path (.contents text.toUTF8) 3 (printedLines run.observed.toList)
        (record fault.message)
  | halted {text : String} {bytes : List UInt8} {run : Run UInt8}
      (h : Source.Spells text.toList bytes) (hsize : bytes.length ≤ 256)
      (hrun : (loaded bytes).run = some run) (hok : run.result = .ok ()) :
      Reports record path (.contents text.toUTF8) 0 (printedLines run.observed.toList) ""

/-! ## The views of a transcript -/

section Views

variable {config : Config} {colour works : Bool} {stamp : String}

/-- Without a trace, what is only for the trace is not written. -/
theorem stderr_trace (htrace : config.trace = false) (message : String) :
    Event.stderr (config.applyTo initialSettings) colour works stamp (.logged ⟨.trace, message⟩) =
      "" := by
  simp [Event.stderr, Log.Settings.write, Config.applyTo, htrace, Log.Level.severity]

/-- A record that is not for the trace is always written. -/
theorem write_of_info_le {level : Log.Level} {tag : String}
    (hlevel : Log.Level.info.severity ≤ level.severity)
    (htag : "[" ++ level.display 5 none ++ "] " = tag) (message : String) :
    let line := (if config.timestamps then stamp ++ " " else "") ++ tag ++ message ++ "\n"
    (config.applyTo initialSettings).write colour stamp ⟨level, message⟩ =
      if colour then Log.plainEscape ++ level.escapes ++ line ++ Log.plainEscape else line := by
  have hleast : ¬ level.severity < (config.applyTo initialSettings).minLevel.severity := by
    rw [Config.applyTo]
    cases config.trace with
    | true => exact Nat.not_lt_zero _
    | false => exact Nat.not_lt.2 hlevel
  unfold Log.Settings.write Log.Settings.line
  rw [if_neg hleast, ← htag]
  rfl

/-- An error is always written. -/
theorem stderr_failed (failure : Failure) :
    Event.stderr (config.applyTo initialSettings) colour true stamp (.failed failure) =
      errorRecord config colour stamp failure.message :=
  write_of_info_le (by decide) (by decide +kernel) failure.message

/-- What a view makes of the steps of a run: if it does not show the trace, what it makes of the
printed values. -/
theorem join_observedIn {view : Event → String}
    (htrace : ∀ message, view (.logged ⟨.trace, message⟩) = "") (m : Machine) (n : Nat) :
    String.join ((m.observedIn observe n).map view) =
      String.join ((m.printedIn n).map fun value => view (.printed value)) := by
  induction n with
  | zero => rfl
  | succ n ih =>
    rw [observedIn, printedIn, observedIn, List.map_append, List.map_append, String.join_append,
      String.join_append, ih]
    show _ ++ String.join (view (.logged ⟨.trace, _⟩) :: _) = _
    rw [String.join_cons, htrace, String.empty_append, List.map_map]
    rfl

theorem stdout_observedIn (m : Machine) (n : Nat) :
    String.join ((m.observedIn observe n).map Event.stdout) = printedLines (m.printedIn n) := by
  rw [join_observedIn (fun _ => rfl)]
  simp only [printedLines, Event.stdout, Event.printedLine, decimal_eq_toString]

theorem stderr_observedIn (htrace : config.trace = false) (m : Machine) (n : Nat) :
    String.join ((m.observedIn observe n).map
      (Event.stderr (config.applyTo initialSettings) colour true stamp)) = "" := by
  rw [join_observedIn (stderr_trace htrace)]
  induction m.printedIn n with
  | nil => rfl
  | cons value rest ih =>
    rw [List.map_cons, String.join_cons, ih]
    rfl

end Views

/-! ## The transcript of a session -/

/-- The transcript of a session that has begun, if it ends. -/
def Beginning.complete : Beginning → Option Transcript
  | .finished t => some t
  | .ready settings events m =>
    (m.runWith observe).map fun run =>
      ⟨settings, events ++ run.observed.toList ++ (conclude run.result run.machine).1,
        (conclude run.result run.machine).2⟩

theorem transcript_of_run {program : String} {arguments : List String} {read : String → ReadResult}
    {config : Config} (h : Request.ofArguments arguments = .ok (.run config)) :
    transcript program arguments read = (prepare config (read config.program)).complete := by
  unfold transcript start
  rw [h]
  show (match prepare config (read config.program) with
    | .finished t => some t
    | .ready settings events m => _) = _
  cases prepare config (read config.program) <;> rfl

variable {config : Config} {found : ReadResult}

/-- The record that a program has been loaded. -/
def loadedRecord (config : Config) (bytes : List UInt8) : Event :=
  .logged ⟨.trace, "loaded " ++ decimal bytes.length ++ " bytes from " ++ config.program⟩

theorem prepare_of_error {error : LoadError} {diagnostic : String}
    (h : Loader.load config.program found = ⟨.error error, diagnostic⟩) :
    prepare config found = .finished ⟨config.applyTo initialSettings, reportLoad error diagnostic,
      (Failure.load error).exitStatus⟩ := by
  unfold prepare
  rw [h]

theorem prepare_of_gt {bytes : List UInt8}
    (h : Loader.load config.program found = ⟨.ok bytes, ""⟩) (hsize : memorySize < bytes.length) :
    prepare config found = .finished ⟨config.applyTo initialSettings,
      [loadedRecord config bytes, .failed (.fault (.programTooLarge bytes.length memorySize))],
      .fault⟩ := by
  unfold prepare
  rw [h]
  simp only [load_initial, if_neg (Nat.not_le.2 hsize)]
  rfl

theorem prepare_of_le {bytes : List UInt8}
    (h : Loader.load config.program found = ⟨.ok bytes, ""⟩) (hsize : bytes.length ≤ memorySize) :
    prepare config found = .ready (config.applyTo initialSettings) [loadedRecord config bytes]
      (loaded bytes) := by
  unfold prepare
  rw [h]
  simp only [load_initial, if_pos hsize]
  rfl

/-! ## Loading -/

/-- Bytes that encode a text are read as the text. -/
theorem source_toUTF8 (path text : String) :
    Loader.source path (.contents text.toUTF8) = .ok text := by
  have hdecode : String.fromUTF8? text.toUTF8 = some text := dif_pos text.isValidUTF8
  simp only [Loader.source, hdecode]

/-- Bytes that encode no text cannot be read. -/
theorem source_of_not_text {bytes : ByteArray} (path : String)
    (h : ∀ text : String, bytes ≠ text.toUTF8) :
    Loader.source path (.contents bytes) =
      .error (.unreadable path "stream did not contain valid UTF-8") := by
  have hdecode : String.fromUTF8? bytes = none :=
    dif_neg fun hvalid => h (String.fromUTF8 bytes hvalid) rfl
  simp only [Loader.source, hdecode]

/-- What bytes can be: no text, a source with a first malformed line, or a source that spells
bytes. -/
theorem contents_cases (bytes : ByteArray) :
    (∀ text : String, bytes ≠ text.toUTF8) ∨
      ∃ text : String, bytes = text.toUTF8 ∧
        ((∃ m, Source.FirstMalformed text.toList m) ∨ ∃ values, Source.Spells text.toList values) := by
  by_cases htext : ∃ text : String, bytes = text.toUTF8
  · obtain ⟨text, rfl⟩ := htext
    refine .inr ⟨text, rfl, ?_⟩
    cases hread : Source.read text.toList with
    | error m => exact .inl ⟨m, Source.read_eq_error_iff.1 hread⟩
    | ok values => exact .inr ⟨values, Source.read_eq_ok_iff.1 hread⟩
  · exact .inl (not_exists.1 htext)

theorem load_of_not_text {bytes : ByteArray} (path : String)
    (h : ∀ text : String, bytes ≠ text.toUTF8) :
    Loader.load path (.contents bytes) =
      ⟨.error (.unreadable path "stream did not contain valid UTF-8"), ""⟩ := by
  simp only [Loader.load, source_of_not_text path h]

theorem load_of_spells {text : String} {bytes : List UInt8} (path : String)
    (h : Source.Spells text.toList bytes) :
    Loader.load path (.contents text.toUTF8) = ⟨.ok bytes, ""⟩ := by
  have hparse : Source.parse text = .ok bytes := Source.read_eq_ok_iff.2 h
  simp only [Loader.load, source_toUTF8, hparse]

theorem load_of_firstMalformed {text : String} {m : Malformed} (path : String)
    (h : Source.FirstMalformed text.toList m) :
    Loader.load path (.contents text.toUTF8) =
      ⟨.error (.malformed m), Diagnostic.render path text m.line m.offset m.message⟩ := by
  have hparse : Source.parse text = .error m := Source.read_eq_error_iff.2 h
  simp only [Loader.load, source_toUTF8, hparse]

/-! ## The end of a session -/

variable {colour : Bool} {stamp : String} {before : List Event}

/-- What a session shows is what it has shown and what it shows in the end. -/
theorem views_append (last : List Event) (status : ExitStatus) (herr : String.join (before.map
      (Event.stderr (config.applyTo initialSettings) colour true stamp)) = "") :
    Transcript.stdout ⟨config.applyTo initialSettings, before ++ last, status⟩ true =
        String.join (before.map Event.stdout) ++ String.join (last.map Event.stdout) ∧
      Transcript.stderr ⟨config.applyTo initialSettings, before ++ last, status⟩ colour true stamp =
        String.join
          (last.map (Event.stderr (config.applyTo initialSettings) colour true stamp)) := by
  constructor
  · show String.join ((before ++ last).map Event.stdout) = _
    rw [List.map_append, String.join_append]
  · show String.join ((before ++ last).map _) = _
    rw [List.map_append, String.join_append, herr, String.empty_append]

/-- A session that fails in the end reports the failure. -/
theorem views_failed (failure : Failure) (status : ExitStatus) (herr : String.join (before.map
      (Event.stderr (config.applyTo initialSettings) colour true stamp)) = "") :
    Transcript.stdout ⟨config.applyTo initialSettings, before ++ [Event.failed failure], status⟩
        true = String.join (before.map Event.stdout) ∧
      Transcript.stderr ⟨config.applyTo initialSettings, before ++ [Event.failed failure], status⟩
        colour true stamp = errorRecord config colour stamp failure.message := by
  obtain ⟨hout, hlast⟩ := views_append [Event.failed failure] status herr
  refine ⟨hout.trans String.append_empty, hlast.trans ?_⟩
  rw [List.map_cons, List.map_nil, String.join_cons, String.join_nil, stderr_failed,
    String.append_empty]

/-- A session that fails before there is anything to run. -/
theorem complete_of_error {error : LoadError} {diagnostic : String}
    (h : Loader.load config.program found = ⟨.error error, diagnostic⟩)
    (hreport : reportLoad error diagnostic = [Event.failed (.load error)]) :
    ∃ t, (prepare config found).complete = some t ∧
      t.status.code = (Failure.load error).exitStatus.code ∧ t.stdout true = "" ∧
      t.stderr colour true stamp = errorRecord config colour stamp error.message := by
  have hnothing : String.join (([] : List Event).map
      (Event.stderr (config.applyTo initialSettings) colour true stamp)) = "" := rfl
  obtain ⟨hout, herr⟩ := views_failed (.load error) (Failure.load error).exitStatus hnothing
  rw [prepare_of_error h, hreport]
  exact ⟨_, rfl, rfl, hout, herr⟩

/-- The transcript of a session whose run ends. -/
theorem complete_of_run {bytes : List UInt8} {run : Run UInt8}
    (h : Loader.load config.program found = ⟨.ok bytes, ""⟩) (hsize : bytes.length ≤ memorySize)
    (hrun : (loaded bytes).run = some run) :
    ∃ n, run.observed.toList = (loaded bytes).printedIn n ∧
      (prepare config found).complete = some ⟨config.applyTo initialSettings,
        loadedRecord config bytes :: (loaded bytes).observedIn observe n ++
          (conclude run.result run.machine).1,
        (conclude run.result run.machine).2⟩ := by
  obtain ⟨n, hprinted, hobserved⟩ := exists_runWith hrun observe
  refine ⟨n, hprinted, ?_⟩
  rw [prepare_of_le h hsize]
  show ((loaded bytes).runWith observe).map _ = _
  rw [hobserved]
  rfl

/-- What a session has shown when its run is over. -/
theorem views_run (colour : Bool) (stamp : String) (htrace : config.trace = false)
    (bytes : List UInt8) (n : Nat) :
    String.join ((loadedRecord config bytes :: (loaded bytes).observedIn observe n).map
        Event.stdout) = printedLines ((loaded bytes).printedIn n) ∧
      String.join ((loadedRecord config bytes :: (loaded bytes).observedIn observe n).map
        (Event.stderr (config.applyTo initialSettings) colour true stamp)) = "" := by
  constructor
  · rw [List.map_cons, String.join_cons, stdout_observedIn]
    exact String.empty_append
  · rw [List.map_cons, String.join_cons, stderr_observedIn htrace, loadedRecord,
      stderr_trace htrace]
    rfl

/-- The first line of the report on a malformed line names the token. -/
theorem error_message (m : Malformed) :
    "error: " ++ m.message = "error: invalid number '" ++ m.token ++ "'" := by
  -- Rewriting would compare the literals with appended texts, character by character.
  have hassoc (a b c d : String) : a ++ (b ++ c ++ d) = a ++ b ++ c ++ d := by
    rw [← String.append_assoc, ← String.append_assoc]
  have hopening : "error: " ++ "invalid number '" = "error: invalid number '" := by decide
  calc "error: " ++ m.message
      = "error: " ++ "invalid number '" ++ m.token ++ "'" := hassoc "error: " "invalid number '" _ _
    _ = "error: invalid number '" ++ m.token ++ "'" := congrArg (· ++ m.token ++ "'") hopening

/-- What is to be reported is what the session shows. -/
theorem Reports.complete (htrace : config.trace = false) {number : UInt32} {out err : String}
    (h : Reports (errorRecord config colour stamp) config.program found number out err) :
    ∃ t, (prepare config found).complete = some t ∧ t.status.code = number ∧
      t.stdout true = out ∧ t.stderr colour true stamp = err := by
  cases h with
  | missing =>
    have hload : Loader.load config.program .missing =
        ⟨.error (.notFound config.program), ""⟩ := rfl
    exact complete_of_error hload rfl
  | failed reason =>
    have hload : Loader.load config.program (.failed reason) =
        ⟨.error (.unreadable config.program reason), ""⟩ := rfl
    exact complete_of_error hload rfl
  | notText hbytes => exact complete_of_error (load_of_not_text config.program hbytes) rfl
  | @malformed text m quoted hm hquoted =>
    -- The diagnostic is the only event, and it is written as it is.
    have hreport (report : String) : String.join [report] = report := by
      rw [String.join_cons, String.join_nil, String.append_empty]
    rw [prepare_of_error (load_of_firstMalformed config.program hm)]
    refine ⟨_, rfl, rfl, rfl, (hreport _).trans ?_⟩
    show Diagnostic.render _ _ _ _ _ = _
    rw [Diagnostic.render_of_isLine (Source.read_eq_error_iff.2 hm) hquoted, error_message]
  | @tooLarge text bytes hbytes hsize =>
    -- The program has been loaded all the same, but the record of it is only for the trace.
    have hquiet : String.join ([loadedRecord config bytes].map
        (Event.stderr (config.applyTo initialSettings) colour true stamp)) = "" := by
      rw [List.map_cons, String.join_cons, loadedRecord, stderr_trace htrace]
      rfl
    obtain ⟨hout, herr⟩ :=
      views_failed (.fault (.programTooLarge bytes.length memorySize)) .fault hquiet
    rw [prepare_of_gt (load_of_spells config.program hbytes) hsize]
    exact ⟨_, rfl, rfl, hout, herr⟩
  | @faulted text bytes run fault hbytes hsize hrun hfault =>
    obtain ⟨n, hprinted, hcomplete⟩ :=
      complete_of_run (load_of_spells config.program hbytes) hsize hrun
    obtain ⟨hshown, hquiet⟩ := views_run colour stamp htrace bytes n
    obtain ⟨hout, herr⟩ := views_failed (.fault fault) .fault hquiet
    rw [hcomplete, hfault, hprinted]
    exact ⟨_, rfl, rfl, hout.trans hshown, herr⟩
  | @halted text bytes run hbytes hsize hrun hok =>
    obtain ⟨n, hprinted, hcomplete⟩ :=
      complete_of_run (load_of_spells config.program hbytes) hsize hrun
    obtain ⟨hshown, hquiet⟩ := views_run colour stamp htrace bytes n
    obtain ⟨hout, herr⟩ := views_append (conclude (.ok ()) run.machine).1 .success hquiet
    rw [hcomplete, hok, hprinted]
    refine ⟨_, rfl, rfl, ?_, ?_⟩
    · rw [← hshown]
      exact hout.trans String.append_empty
    · refine herr.trans ?_
      show String.join [Event.stderr _ _ _ _ (.logged ⟨.trace, _⟩)] = _
      rw [stderr_trace htrace]
      rfl

/-- A file with a program whose run never ends. -/
def Endless (found : ReadResult) : Prop :=
  ∃ (text : String) (bytes : List UInt8), found = .contents text.toUTF8 ∧
    Source.Spells text.toList bytes ∧ bytes.length ≤ 256 ∧ (loaded bytes).run = none

/-- A run that never ends has no transcript. -/
theorem Endless.complete (config : Config) (h : Endless found) :
    (prepare config found).complete = none := by
  obtain ⟨text, bytes, rfl, hbytes, hsize, hrun⟩ := h
  rw [prepare_of_le (load_of_spells config.program hbytes) hsize]
  show ((loaded bytes).runWith observe).map _ = _
  rw [runWith_eq_none hrun observe]
  rfl

/-- There is always something to report, unless the run never ends. -/
theorem exists_reports (record : String → String) (path : String) (found : ReadResult) :
    Endless found ∨ ∃ number out err, Reports record path found number out err := by
  cases found with
  | missing => exact .inr ⟨_, _, _, .missing⟩
  | failed reason => exact .inr ⟨_, _, _, .failed reason⟩
  | contents bytes =>
    rcases contents_cases bytes with hnot | ⟨text, rfl, ⟨m, hm⟩ | ⟨values, hvalues⟩⟩
    · exact .inr ⟨_, _, _, .notText hnot⟩
    · obtain ⟨quoted, -, hquoted, -⟩ := Diagnostic.exists_quoted (Source.read_eq_error_iff.2 hm)
      exact .inr ⟨_, _, _, .malformed hm hquoted⟩
    · rcases Nat.lt_or_ge 256 values.length with hgt | hle
      · exact .inr ⟨_, _, _, .tooLarge hvalues hgt⟩
      · cases hrun : (loaded values).run with
        | none => exact .inl ⟨text, values, rfl, hvalues, hle, hrun⟩
        | some run =>
          cases hresult : run.result with
          | error fault => exact .inr ⟨_, _, _, .faulted hvalues hle hrun hresult⟩
          | ok _ => exact .inr ⟨_, _, _, .halted hvalues hle hrun hresult⟩

/-- **A session from the command line to the exit status.** Let the arguments ask for a run without
a trace, and let standard output work. Whatever reading the path gives, the session ends with exactly
the exit status and the streams that are to be reported; and it fails to end exactly if the file is a
source of a program that fits in memory and never stops. -/
theorem transcript_reports (program : String) (arguments : List String)
    (read : String → ReadResult) (config : Config) (colour : Bool) (stamp : String)
    (hrequest : Request.ofArguments arguments = .ok (.run config)) (htrace : config.trace = false) :
    (∀ number out err,
      (∃ t, transcript program arguments read = some t ∧ t.status.code = number ∧
        t.stdout true = out ∧ t.stderr colour true stamp = err) ↔
      Reports (errorRecord config colour stamp) config.program (read config.program)
        number out err) ∧
    (transcript program arguments read = none ↔ Endless (read config.program)) := by
  rw [transcript_of_run hrequest]
  rcases exists_reports (errorRecord config colour stamp) config.program (read config.program) with
    hendless | ⟨number, out, err, hreports⟩
  · have hnone := hendless.complete config
    refine ⟨fun number out err => ⟨?_, fun h => ?_⟩, fun _ => hendless, fun _ => hnone⟩
    · rintro ⟨t, ht, -⟩
      rw [hnone] at ht
      cases ht
    · exact h.complete htrace
  · obtain ⟨t, ht, hnumber, hout, herr⟩ := hreports.complete htrace
    -- There is only one transcript, so whatever is found in one is what `hreports` has.
    refine ⟨fun number' out' err' => ⟨?_, fun h => h.complete htrace⟩, fun hnone => ?_, fun h => ?_⟩
    · rintro ⟨t', ht', rfl, rfl, rfl⟩
      rw [ht] at ht'
      cases ht'
      rw [hnumber, hout, herr]
      exact hreports
    · rw [hnone] at ht
      cases ht
    · rw [h.complete config] at ht
      cases ht

/-- The program prints 8 and then meets a byte that is no opcode. -/
theorem transcript_reports_of_unknown_opcode :
    ∃ t, transcript "ls8" ["--no-timestamp", "8.ls8"]
        (fun _ => .contents "10000010\n0\n1000 # eight\n01000111\r\n0\n0".toUTF8) = some t ∧
      t.status.code = 3 ∧ t.stdout true = "8\n" ∧
      t.stderr false true "" = "[ERROR] unknown opcode 0b00000000 at pc 0x05\n" := by
  have hrequest : Request.ofArguments ["--no-timestamp", "8.ls8"] =
      .ok (.run ⟨"8.ls8", false, false⟩) := by
    decide +kernel
  have hbytes : Source.Spells "10000010\n0\n1000 # eight\n01000111\r\n0\n0".toList
      [0x82, 0, 8, 0x47, 0, 0] :=
    Source.read_eq_ok_iff.1 (by decide +kernel)
  have hrun : (loaded [0x82, 0, 8, 0x47, 0, 0]).run.map (fun run =>
      (run.result, run.observed.toList)) = some (.error (.unknownOpcode 0 5), [8]) := by
    decide +kernel
  obtain ⟨run, hrun, hleft⟩ := Option.map_eq_some_iff.1 hrun
  obtain ⟨hresult, hprinted⟩ := Prod.mk.inj hleft
  have hends := transcript_reports "ls8" ["--no-timestamp", "8.ls8"]
    (fun _ => .contents "10000010\n0\n1000 # eight\n01000111\r\n0\n0".toUTF8) _ false "" hrequest rfl
  obtain ⟨t, ht, hstatus, hout, herr⟩ :=
    (hends.1 _ _ _).2 (.faulted hbytes (by decide) hrun hresult)
  refine ⟨t, ht, hstatus, ?_, ?_⟩
  · rw [hout, hprinted]
    decide +kernel
  · rw [herr]
    decide +kernel

end Session

end ByteMachine
