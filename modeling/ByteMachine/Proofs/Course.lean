import ByteMachine.Proofs.Session

/-!
# The course of a session

What a session does when it has been asked to run a program is a list of events and an exit status.
There are four courses that it can take (`Course`): there is no program to run, the program does not
fit in memory, its run ends in a fault, or its run halts. Each is told here by what reading the path
gave and by the steps of the machine. Every finished session has taken one of them
(`course_of_complete`), so what holds of a session is proved of four lists of events.

Whether there is a trace has no part in this. It decides what is written of the events and not what
they are (`complete_trace`).
-/

namespace ByteMachine

namespace Session

open Machine

/-! ## What reading gave -/

/-- Reading the path gave a source that spells these bytes. -/
def Provides (found : ReadResult) (bytes : List UInt8) : Prop :=
  ∃ text : String, found = .contents text.toUTF8 ∧ Source.Spells text.toList bytes

theorem Provides.load_eq {found : ReadResult} {bytes : List UInt8} (h : Provides found bytes)
    (path : String) : Loader.load path found = ⟨.ok bytes, ""⟩ := by
  obtain ⟨text, rfl, hbytes⟩ := h
  exact load_of_spells path hbytes

/-- Either there are bytes to load, or loading fails. -/
theorem exists_provides_or (path : String) (found : ReadResult) :
    (∃ bytes, Provides found bytes) ∨
      ∃ error diagnostic, Loader.load path found = ⟨.error error, diagnostic⟩ := by
  cases found with
  | missing => exact .inr ⟨_, _, rfl⟩
  | failed reason => exact .inr ⟨_, _, rfl⟩
  | contents bytes =>
    rcases contents_cases bytes with hnot | ⟨text, rfl, ⟨m, hm⟩ | ⟨values, hvalues⟩⟩
    · exact .inr ⟨_, _, load_of_not_text path hnot⟩
    · exact .inr ⟨_, _, load_of_firstMalformed path hm⟩
    · exact .inl ⟨values, text, rfl, hvalues⟩

/-! ## Courses -/

/-- The record at the end of a run that halts. -/
def haltedRecord (m : Machine) : Event :=
  .logged ⟨.trace, "halted at pc " ++ Numeral.location.write m.pc⟩

/-- The events of a session that has been asked to run a program, in order, and its exit status, by
what reading the path gave. -/
inductive Course (config : Config) (found : ReadResult) : List Event → ExitStatus → Prop
  /-- There is no program, and the failure to load one is reported. -/
  | unloaded {error : LoadError} {diagnostic : String} (h : ∀ bytes, ¬ Provides found bytes)
      (hload : Loader.load config.program found = ⟨.error error, diagnostic⟩) :
      Course config found (reportLoad error diagnostic) (Failure.load error).exitStatus
  /-- There is a program, but it does not fit in memory. -/
  | tooLarge {bytes : List UInt8} (h : Provides found bytes) (hsize : memorySize < bytes.length) :
      Course config found
        [loadedRecord config bytes, .failed (.fault (.programTooLarge bytes.length memorySize))]
        .fault
  /-- The program is run, and after some steps there is one that fails. -/
  | faulted {bytes : List UInt8} {n : Nat} {fault : Fault} (h : Provides found bytes)
      (hsize : bytes.length ≤ memorySize) (hruns : (loaded bytes).RunsFor n)
      (hfault : ((loaded bytes).after n).step.result = .error fault) :
      Course config found
        (loadedRecord config bytes :: (loaded bytes).observedIn observe (n + 1) ++
          [.failed (.fault fault)])
        .fault
  /-- The program is run, and after some steps there is one that halts. -/
  | halted {bytes : List UInt8} {n : Nat} (h : Provides found bytes)
      (hsize : bytes.length ≤ memorySize) (hruns : (loaded bytes).RunsFor n)
      (hhalts : ((loaded bytes).after n).step.result = .ok .halted) :
      Course config found
        (loadedRecord config bytes :: (loaded bytes).observedIn observe (n + 1) ++
          [haltedRecord ((loaded bytes).after (n + 1))])
        .success

variable {config : Config} {found : ReadResult} {t : Transcript}

/-- A session whose run ends has taken the course of the run. -/
theorem course_of_run {bytes : List UInt8} {run : Run Event} (h : Provides found bytes)
    (hsize : bytes.length ≤ memorySize) (hrun : (loaded bytes).runWith observe = some run) :
    Course config found
      (loadedRecord config bytes :: run.observed.toList ++ (conclude run.result run.machine).1)
      (conclude run.result run.machine).2 := by
  obtain ⟨n, hruns, hend, hmachine, hobserved⟩ := runWith_eq_some hrun
  rw [hmachine, hobserved]
  cases hresult : run.result with
  | error fault =>
    rw [hresult] at hend
    exact .faulted h hsize hruns (Outcome.ending?_eq_error_iff.1 hend)
  | ok done =>
    rw [hresult] at hend
    exact .halted h hsize hruns (ending?_eq_ok_iff.1 hend)

/-- A finished session has taken one of the courses, under the settings that its configuration asks
for. -/
theorem course_of_complete (h : (prepare config found).complete = some t) :
    t.settings = config.applyTo initialSettings ∧ Course config found t.events t.status := by
  by_cases hprovides : ∃ bytes, Provides found bytes
  · obtain ⟨bytes, hbytes⟩ := hprovides
    have hload := hbytes.load_eq config.program
    rcases Nat.lt_or_ge memorySize bytes.length with hgt | hle
    · rw [prepare_of_gt hload hgt] at h
      cases h
      exact ⟨rfl, .tooLarge hbytes hgt⟩
    · rw [prepare_of_le hload hle] at h
      obtain ⟨run, hrun, rfl⟩ := Option.map_eq_some_iff.1 h
      exact ⟨rfl, course_of_run hbytes hle hrun⟩
  · obtain ⟨error, diagnostic, hload⟩ :=
      (exists_provides_or config.program found).resolve_left hprovides
    rw [prepare_of_error hload] at h
    cases h
    exact ⟨rfl, .unloaded (not_exists.1 hprovides) hload⟩

/-- With a trace or without one, a session does the same, only under other settings. -/
theorem complete_trace (config : Config) (found : ReadResult) (on : Bool) :
    (prepare { config with trace := on } found).complete =
      (prepare config found).complete.map fun t =>
        { t with settings := Config.applyTo { config with trace := on } initialSettings } := by
  obtain ⟨path, trace, timestamps⟩ := config
  rcases exists_provides_or path found with ⟨bytes, hbytes⟩ | ⟨error, diagnostic, hload⟩
  · have hload (trace : Bool) :
        Loader.load (Config.program ⟨path, trace, timestamps⟩) found = ⟨.ok bytes, ""⟩ :=
      hbytes.load_eq path
    rcases Nat.lt_or_ge memorySize bytes.length with hgt | hle
    · rw [prepare_of_gt (hload on) hgt, prepare_of_gt (hload trace) hgt]
      rfl
    · rw [prepare_of_le (hload on) hle, prepare_of_le (hload trace) hle]
      show ((loaded bytes).runWith observe).map _ = (((loaded bytes).runWith observe).map _).map _
      rw [Option.map_map]
      rfl
  · have hload (trace : Bool) :
        Loader.load (Config.program ⟨path, trace, timestamps⟩) found = ⟨.error error, diagnostic⟩ :=
      hload
    rw [prepare_of_error (hload on), prepare_of_error (hload trace)]
    rfl

end Session

end ByteMachine
