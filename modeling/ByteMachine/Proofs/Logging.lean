import ByteMachine.Proofs.LastWriter
import ByteMachine.Session
import Mathlib.Data.List.Induction

/-!
# What a log writes

Three settings decide what a log writes, and they are changed in two ways: each by an action of its
own, and the least level and the timestamps together, when a command line is applied. The level tag
has no part in that. Whichever way it was, each setting is as the latest action to change it has left
it, or as it was at first (`after_initial`); over one action that is to say that a setting becomes what
the action sets it to, or stays (`perform_settings`). A record changes none of them.

What a record comes to then follows from the three settings (`Record.text`). Which records are left
out is told by the order of the levels (`Level.Below`), which the ranks that the log compares have to
keep (`Level.below_iff`). The log does so by a test of its own, and not by asking whether the level is
enabled; the two agree, because a record that is not left out ends at least with a line feed.
-/

namespace ByteMachine

namespace Log

/-- The level in front of a message. -/
def Level.tag : Level → String
  | trace => "[TRACE] "
  | info => "[INFO ] "
  | warn => "[WARN ] "
  | error => "[ERROR] "

/-- The tag is the name of the level, filled up to five characters, in brackets. -/
theorem Level.tag_eq (level : Level) : "[" ++ level.display 5 none ++ "] " = level.tag := by
  cases level <;> decide

/-- The level comes before the other, from the most to the least verbose. -/
def Level.Below (a b : Level) : Prop := [a, b].Sublist [trace, info, warn, error]

instance (a b : Level) : Decidable (a.Below b) :=
  inferInstanceAs (Decidable ([a, b].Sublist [.trace, .info, .warn, .error]))

/-- The ranks of the levels keep their order. -/
theorem Level.below_iff {a b : Level} : a.Below b ↔ a.severity < b.severity := by
  cases a <;> cases b <;> decide

/-- What a record comes to under settings that let it be written. -/
def Record.text (r : Record) (timestamps levelTags colour : Bool) (stamp : String) : String :=
  (if colour then plainEscape ++ r.level.escapes else "") ++
    ((if timestamps then stamp ++ " " else "") ++ (if levelTags then r.level.tag else "") ++
      r.message ++ "\n") ++
    (if colour then plainEscape else "")

theorem Record.text_ne_empty (r : Record) (timestamps levelTags colour : Bool) (stamp : String) :
    r.text timestamps levelTags colour stamp ≠ "" := by
  intro h
  rw [Record.text] at h
  simp only [String.append_eq_empty_iff] at h
  exact absurd h.1.2.2 (by decide)

namespace Action

/-- The least level that an action sets. -/
def minLevel? : Action → Option Level
  | setMinLevel level => some level
  | configure config => some (if config.trace then .trace else .info)
  | setTimestamps _ | setLevelTags _ | log _ => none

/-- What an action sets the timestamps to. -/
def timestamps? : Action → Option Bool
  | setTimestamps on => some on
  | configure config => some config.timestamps
  | setMinLevel _ | setLevelTags _ | log _ => none

/-- What an action sets the level tags to. -/
def levelTags? : Action → Option Bool
  | setLevelTags on => some on
  | setMinLevel _ | setTimestamps _ | configure _ | log _ => none

end Action

/-- An action, with the time at which it is performed and whether colours are taken then. -/
structure Entry where
  action : Action
  stamp : String
  colour : Bool

namespace Settings

/-- The settings after some actions. -/
def after (s : Settings) (entries : List Entry) : Settings :=
  entries.foldl (fun s entry => (s.perform entry.colour entry.stamp entry.action).1) s

/-- An action sets what it sets and leaves the rest. -/
theorem perform_settings (s : Settings) (colour : Bool) (stamp : String) (action : Action) :
    (s.perform colour stamp action).1 =
      { minLevel := action.minLevel?.getD s.minLevel
        timestamps := action.timestamps?.getD s.timestamps
        levelTags := action.levelTags?.getD s.levelTags } := by
  cases action <;> rfl

/-- Each setting is as the latest action to set it has left it. -/
theorem after_initial (entries : List Entry) :
    Session.initialSettings.after entries =
      { minLevel := (latest Action.minLevel? (entries.map Entry.action)).getD .info
        timestamps := (latest Action.timestamps? (entries.map Entry.action)).getD true
        levelTags := (latest Action.levelTags? (entries.map Entry.action)).getD true } := by
  induction entries using List.reverseRecOn with
  | nil => rfl
  | append_singleton earlier entry ih =>
    rw [after, List.foldl_append]
    show (perform (Session.initialSettings.after earlier) _ _ entry.action).1 = _
    rw [perform_settings, ih]
    simp only [List.map_append, List.map_cons, List.map_nil, latest_concat, Option.getD_or]

/-- What a record comes to, if it is not left out. -/
theorem write_eq (s : Settings) (colour : Bool) (stamp : String) (r : Record) :
    s.write colour stamp r =
      if r.level.Below s.minLevel then ""
      else r.text s.timestamps s.levelTags colour stamp := by
  rw [write, line, Level.tag_eq, Record.text]
  simp only [Level.below_iff]
  cases colour with
  | true => rfl
  | false =>
    simp only [Bool.false_eq_true, if_false, String.empty_append, String.append_empty]

theorem enabled_eq_true_iff (s : Settings) (level : Level) :
    s.enabled level = true ↔ ¬ level.Below s.minLevel := by
  rw [enabled, decide_eq_true_iff, Level.below_iff, Nat.not_lt]

/-- A level is enabled exactly if a record of it comes to something. -/
theorem enabled_iff_write_ne_empty (s : Settings) (colour : Bool) (stamp : String) (r : Record) :
    s.enabled r.level = true ↔ s.write colour stamp r ≠ "" := by
  rw [enabled_eq_true_iff, write_eq]
  by_cases h : r.level.Below s.minLevel
  · rw [if_pos h]
    exact iff_of_false (not_not_intro h) (not_not_intro rfl)
  · rw [if_neg h]
    exact iff_of_true h (r.text_ne_empty _ _ _ _)

/-- **A log follows the latest settings.** After any actions on a log that starts with its initial
settings, a record of any level and with any message, line feeds included, comes to nothing if its
level stands before the least level that was set last, directly or by a command line, in the order of
trace, information, warnings and errors. Else it comes to its message and a line feed, behind the time
of day if the timestamps were last switched on, and the level if the tags were, and in colour it stands
between the escape sequences of its level. Logging it changes no setting, and its level is enabled
exactly if something is written. -/
theorem log_follows_latest_settings (earlier : List Entry) (level : Level) (message stamp : String)
    (colour : Bool) :
    (Session.initialSettings.after earlier).perform colour stamp (.log ⟨level, message⟩) =
      (Session.initialSettings.after earlier,
        if level.Below ((latest Action.minLevel? (earlier.map Entry.action)).getD .info) then ""
        else Record.text ⟨level, message⟩
          ((latest Action.timestamps? (earlier.map Entry.action)).getD true)
          ((latest Action.levelTags? (earlier.map Entry.action)).getD true) colour stamp) ∧
    ((Session.initialSettings.after earlier).enabled level = true ↔
      ((Session.initialSettings.after earlier).perform colour stamp (.log ⟨level, message⟩)).2 ≠
        "") := by
  refine ⟨?_, enabled_iff_write_ne_empty _ colour stamp ⟨level, message⟩⟩
  show (_, write (Session.initialSettings.after earlier) colour stamp ⟨level, message⟩) = _
  rw [write_eq, after_initial]

/-- A command line with a trace sets the least level back, which was at errors, and switches the
timestamps off. The tags had been switched off before, which it does not change. -/
example :
    (Session.initialSettings.after
      [⟨.setMinLevel .error, "", false⟩, ⟨.setLevelTags false, "", false⟩,
        ⟨.configure ⟨"a.ls8", true, false⟩, "", false⟩]).perform true "14:03:27.512"
          (.log ⟨.trace, "loaded"⟩) =
      (⟨.trace, false, false⟩, "\x1b[0m\x1b[2m\x1b[36mloaded\n\x1b[0m") := by
  decide

end Settings

end Log

end ByteMachine
