import ByteMachine.Proofs.Arguments
import ByteMachine.Proofs.Course
import ByteMachine.Proofs.Logging

/-!
# What a trace adds

A trace shows how a program is executed, and it must not have a part in it. Two sessions are compared
here, of which one is asked for a trace and the other is not, while everything else on their command
lines is the same (`untraced`). Reading a command line gives them configurations that differ in the
trace only (`read_untraced`), so they take the same course under settings with another least level
(`complete_trace`), and what this level hides is exactly the records of the trace
(`join_written_filter`). On standard error the records stand between what is there without a trace
(`interleaved_written`), and while standard output works they all stand in front of it, because a run
has nothing to say before it is over (`Course.join_written`).

`TraceRecords` says what these records are: one that the program has been loaded, one for each step
that is taken, with the machine as the step finds it, and one that it has halted, if it does.
-/

namespace ByteMachine

namespace Event

/-- The message of a record of the trace. -/
def traceMessage? : Event → Option String
  | logged ⟨.trace, message⟩ => some message
  | logged _ | printed _ | reported _ => none

theorem eq_of_traceMessage? {event : Event} {message : String}
    (h : event.traceMessage? = some message) : event = logged ⟨.trace, message⟩ := by
  cases event with
  | logged record =>
    obtain ⟨level, message⟩ := record
    cases level with
    | trace =>
      cases h
      rfl
    | info | warn | error => cases h
  | printed | reported => cases h

end Event

namespace Transcript

/-- The transcript without the records of the trace. -/
def withoutTrace (t : Transcript) : Transcript :=
  { t with events := t.events.filter fun event => event.traceMessage?.isNone }

/-- The messages of the records of the trace that are written, in order. -/
def traceRecords (t : Transcript) : List String :=
  if t.settings.enabled .trace then t.events.filterMap Event.traceMessage? else []

end Transcript

namespace Machine

/-! ## The lines of a trace -/

/-- The trace lines of the machines before each of a number of steps. -/
def traceLines (m : Machine) (n : Nat) : List String :=
  (List.range n).map fun k => (m.after k).traceLine

variable {m : Machine}

theorem traceLines_step (m : Machine) (n : Nat) :
    m.traceLine :: m.step.machine.traceLines n = m.traceLines (n + 1) := by
  rw [traceLines, traceLines, List.range_succ_eq_map, List.map_cons, List.map_map]
  exact congrArg _ (List.map_congr_left fun k _ => congrArg traceLine (after_step m k))

theorem traceSteps_of_not_running {limit : Nat} (h : m.step.result ≠ .ok .running) :
    m.traceSteps (limit + 2) = ⟨[m.traceLine], m.step⟩ := by
  rw [traceSteps]
  split
  · rename_i hrunning
    exact absurd hrunning h
  · rfl

theorem traceSteps_of_running {limit : Nat} (h : m.step.result = .ok .running) :
    m.traceSteps (limit + 2) =
      ⟨m.traceLine :: (m.step.machine.traceSteps (limit + 1)).lines,
        { (m.step.machine.traceSteps (limit + 1)).outcome with
          printed := m.step.printed ++ (m.step.machine.traceSteps (limit + 1)).outcome.printed }⟩ := by
  rw [traceSteps, h]

/-- Who looks on at a run for a number of steps sees the trace lines of the machines before its steps,
as far as it goes, and what the last of these steps came to, with all that has been printed. -/
theorem exists_traceSteps_eq (m : Machine) (limit : Nat) :
    ∃ n ≤ limit, m.RunsFor n ∧ (n = limit ∨ (m.after n).step.result ≠ .ok .running) ∧
      (m.traceSteps (limit + 1)).lines = m.traceLines (n + 1) ∧
      (m.traceSteps (limit + 1)).outcome.result = (m.after n).step.result ∧
      (m.traceSteps (limit + 1)).outcome.machine = m.after (n + 1) ∧
      (m.traceSteps (limit + 1)).outcome.printed = m.printedIn (n + 1) := by
  induction limit generalizing m with
  | zero => exact ⟨0, Nat.le_refl 0, runsFor_zero m, .inl rfl, rfl, rfl, rfl, rfl⟩
  | succ limit ih =>
    by_cases hrunning : m.step.result = .ok .running
    · obtain ⟨n, hn, hruns, hlast, hlines, hresult, hmachine, hprinted⟩ := ih m.step.machine
      rw [after_step] at hlast hresult hmachine
      rw [traceSteps_of_running hrunning]
      refine ⟨n + 1, Nat.succ_le_succ hn, .of_step hrunning hruns,
        hlast.imp (congrArg (· + 1)) id, ?_, hresult, hmachine, ?_⟩
      · rw [hlines, traceLines_step]
      · show m.step.printed ++ (traceSteps _ _).outcome.printed = _
        rw [hprinted]
        exact observedIn_step (fun _ o => o.printed) m (n + 1)
    · refine ⟨0, Nat.zero_le _, runsFor_zero m, .inr hrunning, ?_⟩
      rw [traceSteps_of_not_running hrunning]
      exact ⟨rfl, rfl, rfl, rfl⟩

end Machine

namespace Request

/-! ## Asking for a trace -/

/-- The arguments without those that ask for a trace. -/
def untraced (arguments : List String) : List String :=
  arguments.filter fun argument => ¬ AsksTrace argument

/-- The request with a trace, or without one. -/
def withTrace (on : Bool) : Request → Request
  | run config => run { config with trace := on }
  | help => help

theorem classify_eq_trace_iff {argument : String} :
    Argument.classify argument = .trace ↔ AsksTrace argument := by
  unfold Argument.classify AsksTrace
  constructor
  · intro h
    split at h
    · cases h
    · split at h
      · assumption
      · repeat' split at h
        all_goals cases h
  · rintro (rfl | rfl) <;> rfl

/-- Arguments that ask for a trace ask for nothing else, and it does not matter where they stand. -/
theorem read_untraced (known : Known) (arguments : List String) :
    read known arguments =
      (read { known with trace := false } (untraced arguments)).map
        (withTrace (known.trace || arguments.any fun argument => AsksTrace argument)) := by
  induction arguments generalizing known with
  | nil =>
    show read known [] = (read { known with trace := false } []).map (withTrace (known.trace || false))
    rw [Bool.or_false, read, read]
    cases known.program <;> rfl
  | cons argument rest ih =>
    by_cases htrace : AsksTrace argument
    · have hrest : untraced (argument :: rest) = untraced rest := by simp [untraced, htrace]
      rw [hrest, read, classify_eq_trace_iff.2 htrace]
      show read { known with trace := true } rest = _
      rw [ih]
      simp [htrace]
    · have hrest : untraced (argument :: rest) = argument :: untraced rest := by
        simp [untraced, htrace]
      have hany : ((argument :: rest).any fun argument => AsksTrace argument) =
          rest.any fun argument => AsksTrace argument := by
        simp [htrace]
      rw [hrest, hany, read, read]
      cases hclass : Argument.classify argument with
      | trace => exact absurd (classify_eq_trace_iff.1 hclass) htrace
      | help | unknown => rfl
      | noTimestamp => exact ih { known with timestamps := false }
      | positional =>
        cases hprogram : known.program with
        | some program => rfl
        | none => exact ih { known with program := some argument }

theorem untraced_untraced (arguments : List String) :
    untraced (untraced arguments) = untraced arguments := by
  simp [untraced]

variable {arguments traced : List String} {config : Config}

/-- Without the arguments that ask for a trace, a run is without a trace. -/
theorem ofArguments_untraced (h : ofArguments arguments = .ok (.run config)) :
    ofArguments (untraced arguments) = .ok (.run { config with trace := false }) := by
  have hnone : ((untraced arguments).any fun argument => AsksTrace argument) = false := by
    simp [untraced]
  rw [ofArguments, read_untraced] at h ⊢
  rw [untraced_untraced, hnone]
  cases hread : read { ({} : Known) with trace := false } (untraced arguments) with
  | error e =>
    rw [hread] at h
    cases h
  | ok request =>
    rw [hread] at h
    cases request with
    | help => cases h
    | run config' =>
      cases h
      rfl

/-- With some of these arguments, wherever they stand, it is with a trace. -/
theorem ofArguments_traced (h : ofArguments arguments = .ok (.run config))
    (hsame : untraced traced = untraced arguments) (htraced : ∃ argument ∈ traced, AsksTrace argument) :
    ofArguments traced = .ok (.run { config with trace := true }) := by
  have hsome : (traced.any fun argument => AsksTrace argument) = true := by
    simpa using htraced
  have hplain := ofArguments_untraced h
  rw [ofArguments] at hplain ⊢
  rw [read_untraced, hsame, hsome]
  show (read ({} : Known) (untraced arguments)).map (withTrace true) = _
  rw [hplain]
  rfl

end Request

namespace Session

open Machine Request

/-! ## The records of a trace -/

/-- A record of the trace, as a configuration with a trace has it written: with its level, and with
the time of day if the configuration asks for it. -/
def traceRecord (config : Config) (colour : Bool) (stamp message : String) : String :=
  Log.Record.text ⟨.trace, message⟩ config.timestamps true colour stamp

/-- The message that a program has been loaded from a path. -/
def loadedMessage (path : String) (bytes : List UInt8) : String :=
  "loaded " ++ toString bytes.length ++ " bytes from " ++ path

/-- The messages of the records that a trace consists of, in order, by what reading the path gave. -/
inductive TraceRecords (path : String) (found : ReadResult) : List String → Prop
  /-- There is no program to load. -/
  | unread (h : ∀ bytes, ¬ Provides found bytes) : TraceRecords path found []
  /-- There is one, but nothing is run. -/
  | tooLarge {bytes : List UInt8} (h : Provides found bytes) (hsize : 256 < bytes.length) :
      TraceRecords path found [loadedMessage path bytes]
  /-- It is run, and its last step fails. -/
  | faulted {bytes : List UInt8} {n : Nat} {fault : Fault} (h : Provides found bytes)
      (hsize : bytes.length ≤ 256) (hruns : (loaded bytes).RunsFor n)
      (hfault : ((loaded bytes).after n).step.result = .error fault) :
      TraceRecords path found (loadedMessage path bytes :: (loaded bytes).traceLines (n + 1))
  /-- It is run, and its last step halts. -/
  | halted {bytes : List UInt8} {n : Nat} (h : Provides found bytes)
      (hsize : bytes.length ≤ 256) (hruns : (loaded bytes).RunsFor n)
      (hhalts : ((loaded bytes).after n).step.result = .ok .halted) :
      TraceRecords path found
        (loadedMessage path bytes :: (loaded bytes).traceLines (n + 1) ++
          ["halted at pc " ++ Numeral.location.write ((loaded bytes).after (n + 1)).pc])

/-- Of the steps of a run, the trace shows the machine before each. -/
theorem filterMap_observedIn (m : Machine) (n : Nat) :
    (m.observedIn observe n).filterMap Event.traceMessage? = m.traceLines n := by
  induction n with
  | zero => rfl
  | succ n ih =>
    have hstep : (observe (m.after n) (m.after n).step).filterMap Event.traceMessage? =
        [(m.after n).traceLine] := by
      show (m.after n).traceLine :: (((m.after n).step.printed.map Event.printed).filterMap
        Event.traceMessage?) = _
      rw [List.filterMap_map]
      exact congrArg _ (List.filterMap_eq_nil_iff.2 fun _ _ => rfl)
    rw [observedIn, List.filterMap_append, ih, hstep, traceLines, traceLines, List.range_succ,
      List.map_append]
    rfl

/-- The record that a program has been loaded is one of the trace. -/
theorem traceMessage?_loadedRecord (config : Config) (bytes : List UInt8) :
    (loadedRecord config bytes).traceMessage? = some (loadedMessage config.program bytes) := by
  show some ("loaded " ++ decimal bytes.length ++ " bytes from " ++ config.program) = _
  rw [decimal_eq_toString]
  rfl

/-- The records of the trace in the course of a session. -/
theorem Course.traceRecords {config : Config} {found : ReadResult} {events : List Event}
    {status : ExitStatus} (h : Course config found events status) :
    TraceRecords config.program found (events.filterMap Event.traceMessage?) := by
  cases h with
  | @unloaded error diagnostic hnone _ =>
    cases error <;> exact .unread hnone
  | tooLarge hbytes hsize =>
    rw [List.filterMap_cons_some (traceMessage?_loadedRecord _ _)]
    exact .tooLarge hbytes hsize
  | faulted hbytes hsize hruns hfault =>
    rw [List.filterMap_append, List.filterMap_cons_some (traceMessage?_loadedRecord _ _),
      filterMap_observedIn]
    show TraceRecords _ _ (_ ++ [])
    rw [List.append_nil]
    exact .faulted hbytes hsize hruns hfault
  | halted hbytes hsize hruns hhalts =>
    rw [List.filterMap_append, List.filterMap_cons_some (traceMessage?_loadedRecord _ _),
      filterMap_observedIn]
    exact .halted hbytes hsize hruns hhalts

/-! ## What is written with a trace and without one -/

/-- What an event writes to standard error, in a session with a trace or in one without. -/
def written (config : Config) (on colour works : Bool) (stamp : String) : Event → String :=
  Event.stderr (Config.applyTo { config with trace := on } initialSettings) colour works stamp

variable {config : Config} {colour works : Bool} {stamp : String}

/-- What is not for the trace is written with it as it is without. -/
theorem written_of_not_trace {event : Event} (h : event.traceMessage? = none) :
    written config true colour works stamp event = written config false colour works stamp event := by
  cases event with
  | printed value => rfl
  | reported diagnostic => rfl
  | logged record =>
    obtain ⟨level, message⟩ := record
    cases level with
    | trace => cases h
    | info | warn | error => rfl

/-- Without a trace, nothing is written of a record of it. -/
theorem written_of_untraced {event : Event} {message : String}
    (h : event.traceMessage? = some message) : written config false colour works stamp event = "" := by
  rw [Event.eq_of_traceMessage? h]
  exact stderr_trace rfl message

/-- With a trace, a record of it is written. -/
theorem written_of_traced {event : Event} {message : String}
    (h : event.traceMessage? = some message) :
    written config true colour works stamp event = traceRecord config colour stamp message := by
  have hleast : ¬ Log.Level.trace.Below
      (Config.applyTo { config with trace := true } initialSettings).minLevel := by
    show ¬ Log.Level.trace.Below .trace
    decide
  rw [Event.eq_of_traceMessage? h, written]
  exact (Log.Settings.write_eq _ _ _ _).trans (if_neg hleast)

/-- What a trace adds to standard error is what is for the trace. -/
theorem join_written_filter (events : List Event) :
    String.join ((events.filter fun event => event.traceMessage?.isNone).map
        (written config true colour works stamp)) =
      String.join (events.map (written config false colour works stamp)) := by
  induction events with
  | nil => rfl
  | cons event rest ih =>
    cases hevent : event.traceMessage? with
    | none =>
      rw [List.filter_cons_of_pos (by rw [hevent]; rfl), List.map_cons, List.map_cons,
        String.join_cons, String.join_cons, ih, written_of_not_trace hevent]
    | some message =>
      rw [List.filter_cons_of_neg (by simp [hevent]), List.map_cons, String.join_cons,
        written_of_untraced hevent, String.empty_append, ih]

/-- The second text is the first with records of these messages put in between, in order. -/
inductive Interleaved (record : String → String) : List String → String → String → Prop
  | nil : Interleaved record [] "" ""
  /-- The record of the next message comes first. -/
  | record {message : String} {messages : List String} {text whole : String}
      (h : Interleaved record messages text whole) :
      Interleaved record (message :: messages) text (record message ++ whole)
  /-- A piece of the text comes first. -/
  | piece {messages : List String} {piece text whole : String}
      (h : Interleaved record messages text whole) :
      Interleaved record messages (piece ++ text) (piece ++ whole)

/-- With a trace, its records stand between what is on standard error without one. -/
theorem interleaved_written (events : List Event) :
    Interleaved (traceRecord config colour stamp) (events.filterMap Event.traceMessage?)
      (String.join (events.map (written config false colour works stamp)))
      (String.join (events.map (written config true colour works stamp))) := by
  induction events with
  | nil => exact .nil
  | cons event rest ih =>
    rw [List.map_cons, List.map_cons, String.join_cons, String.join_cons]
    cases hevent : event.traceMessage? with
    | none =>
      rw [List.filterMap_cons_none hevent, written_of_not_trace hevent]
      exact .piece ih
    | some message =>
      rw [List.filterMap_cons_some hevent, written_of_untraced hevent, written_of_traced hevent,
        String.empty_append]
      exact .record ih

/-! ## What comes first -/

/-- The event is for standard output or for the trace. While standard output works, nothing of it is
on standard error but the trace. -/
def Quiet (event : Event) : Prop :=
  event.traceMessage? = none → ∃ value, event = .printed value

theorem quiet_of_mem_observedIn {m : Machine} {n : Nat} {event : Event}
    (h : event ∈ m.observedIn observe n) : Quiet event := by
  induction n with
  | zero => cases h
  | succ n ih =>
    rcases List.mem_append.1 h with h | h
    · exact ih h
    · rcases List.mem_cons.1 h with rfl | h
      · exact nofun
      · obtain ⟨value, -, rfl⟩ := List.mem_map.1 h
        exact fun _ => ⟨value, rfl⟩

theorem quiet_of_mem_run {bytes : List UInt8} {n : Nat} {event : Event}
    (h : event ∈ loadedRecord config bytes :: (loaded bytes).observedIn observe n) : Quiet event := by
  rcases List.mem_cons.1 h with rfl | h
  · exact nofun
  · exact quiet_of_mem_observedIn h

/-- Before its end, a session has nothing to say but what is for standard output or the trace, and
behind that there is nothing more for the trace. -/
theorem Course.exists_quiet {found : ReadResult} {events : List Event} {status : ExitStatus}
    (h : Course config found events status) :
    ∃ quiet last, events = quiet ++ last ∧ (∀ event ∈ quiet, Quiet event) ∧
      ∀ event ∈ last, event.traceMessage? = none := by
  have hfailed (failure : Failure) :
      ∀ event ∈ [Event.failed failure], event.traceMessage? = none := by
    intro event hmem
    rw [List.mem_singleton.1 hmem]
    rfl
  cases h with
  | @unloaded error diagnostic _ _ =>
    refine ⟨[], _, rfl, nofun, fun event hmem => ?_⟩
    cases error with
    | malformed m =>
      rw [List.mem_singleton.1 hmem]
      rfl
    | notFound path => exact hfailed _ event hmem
    | unreadable path reason => exact hfailed _ event hmem
  | @tooLarge bytes _ _ =>
    exact ⟨[loadedRecord config bytes], _, rfl,
      fun _ hmem => quiet_of_mem_run (n := 0) hmem, hfailed _⟩
  | faulted _ _ _ _ => exact ⟨_, _, rfl, fun _ => quiet_of_mem_run, hfailed _⟩
  | halted _ _ _ _ =>
    -- The last record is for the trace too, so there is nothing else.
    refine ⟨_, [], (List.append_nil _).symm, fun event hmem => ?_, nofun⟩
    rcases List.mem_append.1 hmem with hmem | hmem
    · exact quiet_of_mem_run hmem
    · rw [List.mem_singleton.1 hmem]
      exact nofun

/-- While standard output works, quiet events leave the records of the trace and nothing else. -/
theorem join_written_of_quiet {events : List Event} (h : ∀ event ∈ events, Quiet event) :
    String.join (events.map (written config true colour true stamp)) =
        String.join ((events.filterMap Event.traceMessage?).map (traceRecord config colour stamp)) ∧
      String.join (events.map (written config false colour true stamp)) = "" := by
  induction events with
  | nil => exact ⟨rfl, rfl⟩
  | cons event rest ih =>
    obtain ⟨hwith, hwithout⟩ := ih fun event hmem => h event (List.mem_cons_of_mem _ hmem)
    rw [List.map_cons, List.map_cons, String.join_cons, String.join_cons, hwith, hwithout,
      String.append_empty]
    cases hevent : event.traceMessage? with
    | none =>
      obtain ⟨value, rfl⟩ := h event List.mem_cons_self hevent
      exact ⟨String.empty_append, rfl⟩
    | some message =>
      rw [List.filterMap_cons_some hevent, List.map_cons, String.join_cons,
        written_of_traced hevent]
      exact ⟨rfl, written_of_untraced hevent⟩

/-- While standard output works, the records of the trace come first on standard error, and behind
them is what is there without a trace. -/
theorem Course.join_written {found : ReadResult} {events : List Event} {status : ExitStatus}
    (h : Course config found events status) :
    String.join (events.map (written config true colour true stamp)) =
      String.join ((events.filterMap Event.traceMessage?).map (traceRecord config colour stamp)) ++
        String.join (events.map (written config false colour true stamp)) := by
  obtain ⟨quiet, last, rfl, hquiet, hlast⟩ := h.exists_quiet
  have hnone : last.filterMap Event.traceMessage? = [] := List.filterMap_eq_nil_iff.2 hlast
  have hsame : last.map (written config true colour true stamp) =
      last.map (written config false colour true stamp) :=
    List.map_congr_left fun event hmem => written_of_not_trace (hlast event hmem)
  rw [List.map_append, List.map_append, String.join_append, String.join_append,
    (join_written_of_quiet hquiet).1, (join_written_of_quiet hquiet).2, List.filterMap_append, hnone,
    List.append_nil, hsame, String.empty_append]

/-! ## Transparency -/

/-- **A trace is transparent.** Let some arguments ask for a run, with a trace or without one, and
compare a session without the arguments that ask for a trace with one that has some of them, anywhere
among the others. Either both end or neither does. If they end, they have the same exit status and
show the same on standard output, whether it works or not; and with the records of the trace taken
away, the second shows on standard error what the first does. In the text on standard error each of
these records is a line with the tag of the trace, behind the time of day if it is asked for and
between the escape sequences if there are colours, and the records stand in order between what the
first session shows, in front of all of it if standard output works. They are that the program has been
loaded, then one for each step that is taken, the last one included, with the trace line of the machine
before it, and then, exactly if the run halts, that it has. -/
theorem trace_is_transparent (program : String) (arguments traced : List String)
    (read : String → ReadResult) (config : Config)
    (hrequest : Request.ofArguments arguments = .ok (.run config))
    (hsame : untraced traced = untraced arguments)
    (htraced : ∃ argument ∈ traced, AsksTrace argument) :
    (transcript program traced read = none ↔ transcript program (untraced arguments) read = none) ∧
    ∀ t, transcript program traced read = some t →
      ∃ plain, transcript program (untraced arguments) read = some plain ∧
        t.status = plain.status ∧ (∀ works, t.stdout works = plain.stdout works) ∧
        (∀ colour works stamp,
          t.withoutTrace.stderr colour works stamp = plain.stderr colour works stamp) ∧
        (∀ colour works stamp, Interleaved (traceRecord config colour stamp) t.traceRecords
          (plain.stderr colour works stamp) (t.stderr colour works stamp)) ∧
        (∀ colour stamp, t.stderr colour true stamp =
          String.join (t.traceRecords.map (traceRecord config colour stamp)) ++
            plain.stderr colour true stamp) ∧
        TraceRecords config.program (read config.program) t.traceRecords := by
  have hwith : transcript program traced read = _ :=
    transcript_of_run (ofArguments_traced hrequest hsame htraced)
  have hwithout : transcript program (untraced arguments) read = _ :=
    transcript_of_run (ofArguments_untraced hrequest)
  rw [hwith, hwithout, complete_trace config (read config.program) true,
    complete_trace config (read config.program) false]
  cases hcomplete : (prepare config (read config.program)).complete with
  | none => exact ⟨Iff.rfl, fun t ht => nomatch ht⟩
  | some s =>
    refine ⟨⟨nofun, nofun⟩, fun t ht => ?_⟩
    cases ht
    obtain ⟨-, hcourse⟩ := course_of_complete hcomplete
    exact ⟨_, rfl, rfl, fun _ => rfl, fun _ _ _ => join_written_filter s.events,
      fun _ _ _ => interleaved_written s.events, fun _ _ => hcourse.join_written,
      hcourse.traceRecords⟩

/-- The program prints 8 and halts at its third step. -/
theorem trace_is_transparent_of_halting_program :
    ∃ t plain, transcript "ls8" ["-t", "8.ls8", "--no-timestamp"]
        (fun _ => .contents "10000010\n0\n1000 # eight\n01000111\n0\n1".toUTF8) = some t ∧
      transcript "ls8" ["8.ls8", "--no-timestamp"]
        (fun _ => .contents "10000010\n0\n1000 # eight\n01000111\n0\n1".toUTF8) = some plain ∧
      t.status = plain.status ∧ t.stdout true = plain.stdout true ∧
      t.withoutTrace.stderr false true "" = plain.stderr false true "" ∧
      Interleaved (traceRecord ⟨"8.ls8", false, false⟩ false "") t.traceRecords
        (plain.stderr false false "") (t.stderr false false "") ∧
      t.stderr false true "" =
        String.join (t.traceRecords.map (traceRecord ⟨"8.ls8", false, false⟩ false "")) ++
          plain.stderr false true "" ∧
      TraceRecords "8.ls8" (.contents "10000010\n0\n1000 # eight\n01000111\n0\n1".toUTF8)
        t.traceRecords := by
  have hrequest : ofArguments ["8.ls8", "--no-timestamp"] = .ok (.run ⟨"8.ls8", false, false⟩) := by
    decide +kernel
  have hends : (transcript "ls8" ["-t", "8.ls8", "--no-timestamp"] fun _ =>
      .contents "10000010\n0\n1000 # eight\n01000111\n0\n1".toUTF8).isSome := by
    decide +kernel
  obtain ⟨t, ht⟩ := Option.isSome_iff_exists.1 hends
  obtain ⟨-, hall⟩ := trace_is_transparent "ls8" ["8.ls8", "--no-timestamp"]
    ["-t", "8.ls8", "--no-timestamp"]
    (fun _ => .contents "10000010\n0\n1000 # eight\n01000111\n0\n1".toUTF8) _ hrequest
    (by decide +kernel) ⟨"-t", by simp, .inl rfl⟩
  obtain ⟨plain, hplain, hstatus, hout, herr, hbetween, hfirst, hrecords⟩ := hall t ht
  have hsame : untraced ["8.ls8", "--no-timestamp"] = ["8.ls8", "--no-timestamp"] := by
    decide +kernel
  rw [hsame] at hplain
  exact ⟨t, plain, ht, hplain, hstatus, hout true, herr false true "", hbetween false false "",
    hfirst false "", hrecords⟩

end Session

end ByteMachine
