import ByteMachine.Proofs.Course

/-!
# Output that is lost

A program prints without asking whether anyone reads. If standard output does not work, the session
goes on, and each value that could not be written is named in a warning. The values are printed
during the run, and a session without a trace has nothing else to say before the run is over; so the
warnings come first, in the order of the values, and what the session reports at its end follows as
it is (`Course.lost`).

Which values these are can be read off the output of a session that works: a text is the printed
lines of one list of values only (`printedLines_injective`).
-/

namespace ByteMachine

/-! ## Printed lines and their values -/

theorem newline_not_mem_toDigits (n : Nat) : '\n' ∉ Nat.toDigits 10 n := by
  intro hmem
  have hdigit : '\n'.isDigit = true := Nat.isDigit_of_mem_toDigits (by decide) (by decide) hmem
  exact absurd hdigit (by decide)

theorem toDigits_injective : Function.Injective (Nat.toDigits 10) :=
  Function.LeftInverse.injective fun _ => Nat.ofDigitChars_ten_toDigits

/-- Between the line feeds of printed lines are the digits of the values. -/
theorem split_printedLines (values : List UInt8) :
    Text.split (printedLines values).toList =
      ⟨values.map fun value => Nat.toDigits 10 value.toNat, []⟩ := by
  induction values with
  | nil => rfl
  | cons value rest ih =>
    have hline : (printedLines (value :: rest)).toList =
        Nat.toDigits 10 value.toNat ++ '\n' :: (printedLines rest).toList := by
      rw [printedLines, List.map_cons, String.join_cons, Nat.toString_eq_ofList_toDigits]
      simp [printedLines]
    rw [hline, Text.split_append (newline_not_mem_toDigits _), ih]
    rfl

theorem printedLines_injective : Function.Injective printedLines := by
  intro values values' h
  have hsplit := split_printedLines values
  rw [h, split_printedLines] at hsplit
  have hdigits := congrArg Text.Split.ended hsplit.symm
  have hinjective : Function.Injective fun value : UInt8 => Nat.toDigits 10 value.toNat :=
    fun _ _ heq => UInt8.toNat_inj.1 (toDigits_injective heq)
  exact List.map_injective_iff.2 hinjective hdigits

namespace Session

open Machine

/-! ## Ways to end -/

/-- The session ends, with the number of the exit status and what is on standard output and on
standard error, where every log line is written at the time `stamp`. Standard output works, or
nothing can be written to it. -/
def Ends (program : String) (arguments : List String) (read : String → ReadResult) (colour : Bool)
    (stamp : String) (works : Bool) (number : UInt32) (out err : String) : Prop :=
  ∃ t, transcript program arguments read = some t ∧ t.status.code = number ∧
    t.stdout works = out ∧ t.stderr colour works stamp = err

/-- A record of a warning, as a configuration has it written. -/
def warningRecord (config : Config) (colour : Bool) (stamp message : String) : String :=
  let line := (if config.timestamps then stamp ++ " " else "") ++ "[WARN ] " ++ message ++ "\n"
  if colour then Log.plainEscape ++ Log.Level.warn.escapes ++ line ++ Log.plainEscape else line

/-- The warnings of values that could not be written, in order. -/
def lostRecords (config : Config) (colour : Bool) (stamp : String) (values : List UInt8) : String :=
  String.join (values.map fun value =>
    warningRecord config colour stamp ("failed to write " ++ toString value.toNat ++ " to stdout"))

/-! ## What takes the place of the output -/

variable {config : Config} {colour : Bool} {stamp : String} {found : ReadResult}
  {events : List Event} {status : ExitStatus}

/-- A warning is always written. -/
theorem stderr_printed (value : UInt8) :
    Event.stderr (config.applyTo initialSettings) colour false stamp (.printed value) =
      warningRecord config colour stamp
        ("failed to write " ++ toString value.toNat ++ " to stdout") := by
  rw [← decimal_eq_toString]
  exact write_of_info_le (by decide) (by decide +kernel) _

/-- On standard error, a run leaves what it makes of the printed values and the record of its end. -/
theorem stderr_run (htrace : config.trace = false) (works : Bool) (bytes : List UInt8) (n : Nat)
    (last : Log.Record) :
    String.join ((loadedRecord config bytes :: (loaded bytes).observedIn observe n ++
        [Event.logged last]).map (Event.stderr (config.applyTo initialSettings) colour works stamp)) =
      String.join (((loaded bytes).printedIn n).map fun value =>
          Event.stderr (config.applyTo initialSettings) colour works stamp (.printed value)) ++
        (config.applyTo initialSettings).write colour stamp last := by
  rw [List.map_append, String.join_append, List.map_cons, String.join_cons, loadedRecord,
    stderr_trace htrace, String.empty_append, join_observedIn (stderr_trace htrace)]
  show _ ++ String.join [(config.applyTo initialSettings).write colour stamp last] = _
  rw [String.join_cons, String.join_nil, String.append_empty]

/-- If a run prints to a standard output that does not work, the warnings come first, and the record
of its end follows. -/
theorem lost_of_run (htrace : config.trace = false) (bytes : List UInt8) (n : Nat)
    (last : Log.Record)
    (hevents : events = loadedRecord config bytes :: (loaded bytes).observedIn observe n ++
      [Event.logged last]) :
    String.join (events.map Event.stdout) = printedLines ((loaded bytes).printedIn n) ∧
      String.join (events.map (Event.stderr (config.applyTo initialSettings) colour false stamp)) =
        lostRecords config colour stamp ((loaded bytes).printedIn n) ++
          String.join
            (events.map (Event.stderr (config.applyTo initialSettings) colour true stamp)) := by
  obtain ⟨hout, -⟩ := views_run colour stamp htrace bytes n
  subst hevents
  constructor
  · rw [List.map_append, String.join_append, hout]
    exact String.append_empty
  · have hquiet : String.join (((loaded bytes).printedIn n).map fun value =>
        Event.stderr (config.applyTo initialSettings) colour true stamp (.printed value)) = "" := by
      rw [← join_observedIn (stderr_trace htrace), stderr_observedIn htrace]
    rw [stderr_run htrace, stderr_run htrace, hquiet, String.empty_append]
    simp only [stderr_printed, lostRecords]

/-- In every course of a session, what is lost is reported before anything else is. -/
theorem Course.lost (colour : Bool) (stamp : String) (htrace : config.trace = false)
    (h : Course config found events status) :
    ∃ values, String.join (events.map Event.stdout) = printedLines values ∧
      String.join (events.map (Event.stderr (config.applyTo initialSettings) colour false stamp)) =
        lostRecords config colour stamp values ++
          String.join
            (events.map (Event.stderr (config.applyTo initialSettings) colour true stamp)) := by
  cases h with
  | @unloaded error diagnostic hnone hload =>
    -- The failure is reported, and nothing is printed that could be lost.
    refine ⟨[], ?_, ?_⟩
    · cases error <;> rfl
    · show _ = "" ++ _
      rw [String.empty_append]
      cases error <;> rfl
  | tooLarge hbytes hsize =>
    refine ⟨[], rfl, ?_⟩
    show _ = "" ++ _
    rw [String.empty_append]
    rfl
  | @faulted bytes n fault hbytes hsize hruns hfault =>
    exact ⟨_, lost_of_run htrace bytes (n + 1) _ rfl⟩
  | @halted bytes n hbytes hsize hruns hhalts =>
    exact ⟨_, lost_of_run htrace bytes (n + 1) _ rfl⟩

/-- **Lost output is reported and changes nothing else.** Let the arguments ask for a run without a
trace, and let the session end when standard output works. Then what it shows there is the printed
lines of some values; and if nothing can be written to standard output, it ends all the same, with
the same exit status, and shows on standard error one warning for each of these values, in their
order, and after them what it shows there when standard output works. -/
theorem lost_output_is_reported (program : String) (arguments : List String)
    (read : String → ReadResult) (config : Config) (colour : Bool) (stamp : String)
    (number : UInt32) (out err : String)
    (hrequest : Request.ofArguments arguments = .ok (.run config)) (htrace : config.trace = false)
    (hends : Ends program arguments read colour stamp true number out err) :
    (∃ values, out = printedLines values) ∧
    ∀ values, out = printedLines values →
      Ends program arguments read colour stamp false number ""
        (lostRecords config colour stamp values ++ err) := by
  obtain ⟨⟨settings, events, status⟩, ht, rfl, rfl, rfl⟩ := hends
  rw [transcript_of_run hrequest] at ht
  obtain ⟨hsettings, hcourse⟩ := course_of_complete ht
  obtain rfl : settings = config.applyTo initialSettings := hsettings
  obtain ⟨values, hout, herr⟩ := hcourse.lost colour stamp htrace
  refine ⟨⟨values, hout⟩, fun values' hout' => ?_⟩
  obtain rfl : values' = values := printedLines_injective (hout'.symm.trans hout)
  rw [Ends, transcript_of_run hrequest]
  exact ⟨_, ht, rfl, rfl, herr⟩

/-- The program prints 8 and then meets a byte that is no opcode. -/
theorem lost_output_is_reported_of_unknown_opcode :
    Ends "ls8" ["--no-timestamp", "8.ls8"]
      (fun _ => .contents "10000010\n0\n1000 # eight\n01000111\r\n0\n0".toUTF8) false "" false 3 ""
      "[WARN ] failed to write 8 to stdout\n[ERROR] unknown opcode 0b00000000 at pc 0x05\n" := by
  have hrequest : Request.ofArguments ["--no-timestamp", "8.ls8"] =
      .ok (.run ⟨"8.ls8", false, false⟩) := by
    decide +kernel
  have hshown : (transcript "ls8" ["--no-timestamp", "8.ls8"] fun _ =>
      .contents "10000010\n0\n1000 # eight\n01000111\r\n0\n0".toUTF8).map (fun t =>
        (t.status.code, t.stdout true, t.stderr false true "")) =
      some (3, "8\n", "[ERROR] unknown opcode 0b00000000 at pc 0x05\n") := by
    decide +kernel
  obtain ⟨t, ht, hviews⟩ := Option.map_eq_some_iff.1 hshown
  simp only [Prod.mk.injEq] at hviews
  obtain ⟨-, hlost⟩ := lost_output_is_reported "ls8" ["--no-timestamp", "8.ls8"]
    (fun _ => .contents "10000010\n0\n1000 # eight\n01000111\r\n0\n0".toUTF8) _ false "" 3 "8\n"
    "[ERROR] unknown opcode 0b00000000 at pc 0x05\n" hrequest rfl
    ⟨t, ht, hviews.1, hviews.2.1, hviews.2.2⟩
  exact hlost [8] (by decide +kernel)

end Session

end ByteMachine
