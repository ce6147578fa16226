import ByteMachine.Arguments
import ByteMachine.Proofs.Text
import Mathlib.Data.List.Induction

/-!
# The first decisive argument

What a command line asks for depends on its arguments from left to right, but not on all of them. A
request for help, an unknown option and a second path are decisive: with the arguments in front of it
in view, each of them settles the answer (`Decisive`). All others are gathered (`gathered`): the first
path, and which of the flags there are.

Reading does one of two things with the next argument, and which one is the matter of this module. If
the argument is not decisive, the reader goes on, and knows what is gathered of one argument more
(`read_gathered_of_not_decisive`); if it is, the reader answers (`read_gathered_of_decisive`). So the
reader comes to the first decisive argument with everything gathered that stands in front of it, and
to the end of a line without one with everything.

Flags are never decisive, and no argument is made decisive by flags. So they may stand anywhere and
any number of times (`AlikeButForFlags`).
-/

namespace ByteMachine

namespace Request

/-! ## Kinds of arguments -/

/-- The argument asks for help. -/
def AsksHelp (argument : String) : Prop := argument = "-h" ∨ argument = "--help"

/-- The argument asks for a trace. -/
def AsksTrace (argument : String) : Prop := argument = "-t" ∨ argument = "--trace"

/-- An option that the reader goes on behind. -/
def IsFlag (argument : String) : Prop := AsksTrace argument ∨ argument = "--no-timestamp"

/-- A dash and something behind it, and none of the options there are. -/
def IsUnknownOption (argument : String) : Prop :=
  argument.toList.head? = some '-' ∧ 1 < argument.utf8ByteSize ∧
    ¬ AsksHelp argument ∧ ¬ IsFlag argument

/-- Anything else, the empty argument and a lone dash included. -/
def IsPositional (argument : String) : Prop :=
  ¬ AsksHelp argument ∧ ¬ IsFlag argument ∧ ¬ IsUnknownOption argument

instance : DecidablePred AsksHelp := fun _ => inferInstanceAs (Decidable (_ ∨ _))

instance (argument : String) : Decidable (AsksTrace argument) :=
  inferInstanceAs (Decidable (argument = "-t" ∨ argument = "--trace"))

instance : DecidablePred IsFlag := fun _ => inferInstanceAs (Decidable (_ ∨ _))

instance : DecidablePred IsUnknownOption := fun _ => inferInstanceAs (Decidable (_ ∧ _))

instance : DecidablePred IsPositional := fun _ => inferInstanceAs (Decidable (_ ∧ _))

variable {arguments arguments' earlier : List String} {argument : String}

theorem AsksHelp.not_isFlag (h : AsksHelp argument) : ¬ IsFlag argument := by
  rcases h with rfl | rfl
  · decide
  · decide

/-- More than a dash is a dash and another character. -/
theorem exists_dash_iff : (∃ c rest, argument.toList = '-' :: c :: rest) ↔
    argument.toList.head? = some '-' ∧ 1 < argument.utf8ByteSize := by
  have hsize : argument.utf8ByteSize = Text.byteLength argument.toList := by
    rw [Text.byteLength_eq_utf8ByteSize, String.ofList_toList]
  rw [hsize]
  constructor
  · rintro ⟨c, rest, hdash⟩
    rw [hdash]
    have hpos : 0 < c.utf8Size := c.utf8Size_pos
    exact ⟨rfl, show 1 < 1 + (c.utf8Size + Text.byteLength rest) by omega⟩
  · rintro ⟨hhead, hlong⟩
    obtain ⟨rest, hdash⟩ := List.head?_eq_some_iff.1 hhead
    rw [hdash] at hlong ⊢
    cases rest with
    | nil => exact absurd hlong (by decide)
    | cons c rest => exact ⟨c, rest, rfl⟩

/-- Classification tells the kinds apart. -/
theorem classify_cases (argument : String) :
    (AsksHelp argument ∧ Argument.classify argument = .help) ∨
    (AsksTrace argument ∧ Argument.classify argument = .trace) ∨
    (argument = "--no-timestamp" ∧ Argument.classify argument = .noTimestamp) ∨
    (IsUnknownOption argument ∧ Argument.classify argument = .unknown) ∨
    (IsPositional argument ∧ Argument.classify argument = .positional) := by
  unfold Argument.classify
  -- The kinds are tried in this order, so that each of them excludes those before it.
  by_cases hhelp : argument = "-h" ∨ argument = "--help"
  · exact .inl ⟨hhelp, if_pos hhelp⟩
  by_cases htrace : argument = "-t" ∨ argument = "--trace"
  · exact .inr (.inl ⟨htrace, (if_neg hhelp).trans (if_pos htrace)⟩)
  by_cases hstamp : argument = "--no-timestamp"
  · exact .inr (.inr (.inl ⟨hstamp, by rw [if_neg hhelp, if_neg htrace, if_pos hstamp]⟩))
  have hflag : ¬ IsFlag argument := by
    rintro (h | h)
    · exact htrace h
    · exact hstamp h
  rw [if_neg hhelp, if_neg htrace, if_neg hstamp]
  refine .inr (.inr (.inr ?_))
  by_cases hdash : ∃ c rest, argument.toList = '-' :: c :: rest
  · have hlong := exists_dash_iff.1 hdash
    obtain ⟨c, rest, hlist⟩ := hdash
    exact .inl ⟨⟨hlong.1, hlong.2, hhelp, hflag⟩, by rw [hlist]; rfl⟩
  · refine .inr ⟨⟨hhelp, hflag, fun h => hdash (exists_dash_iff.2 ⟨h.1, h.2.1⟩)⟩, ?_⟩
    split
    · next c rest hlist => exact absurd ⟨c, rest, hlist⟩ hdash
    · rfl

/-! ## Decisive arguments -/

/-- With the earlier arguments in view, the argument settles what the command line asks for. -/
def Decisive (earlier : List String) (argument : String) : Prop :=
  AsksHelp argument ∨ IsUnknownOption argument ∨
    (IsPositional argument ∧ ∃ path ∈ earlier, IsPositional path)

/-- Some argument is decisive. -/
def Decided (arguments : List String) : Prop :=
  ∃ earlier argument later, arguments = earlier ++ argument :: later ∧ Decisive earlier argument

/-- The argument is decisive, and none in front of it is. -/
def FirstDecisive (arguments : List String) (argument : String) : Prop :=
  ∃ earlier later, arguments = earlier ++ argument :: later ∧ Decisive earlier argument ∧
    ¬ Decided earlier

/-- The arguments that are no flags. -/
def others (arguments : List String) : List String := arguments.filter (¬ IsFlag ·)

/-- The two command lines differ at most in where their flags stand and how often. -/
structure AlikeButForFlags (arguments arguments' : List String) : Prop where
  others : others arguments = others arguments'
  flags : ∀ flag, IsFlag flag → (flag ∈ arguments ↔ flag ∈ arguments')

instance : Decidable (Decisive earlier argument) := inferInstanceAs (Decidable (_ ∨ _ ∨ _))

theorem decided_iff_exists_take :
    Decided arguments ↔ ∃ i : Fin arguments.length, Decisive (arguments.take i) arguments[i] := by
  constructor
  · rintro ⟨earlier, argument, later, rfl, h⟩
    exact ⟨⟨earlier.length, by simp⟩, by simpa using h⟩
  · rintro ⟨i, h⟩
    refine ⟨_, _, arguments.drop (i + 1), ?_, h⟩
    exact (List.take_append_drop i arguments).symm.trans
      (congrArg _ (List.getElem_cons_drop i.isLt).symm)

instance : DecidablePred Decided := fun _ => decidable_of_iff _ decided_iff_exists_take.symm

theorem Decisive.not_isFlag (h : Decisive earlier argument) : ¬ IsFlag argument := by
  rcases h with h | h | h
  · exact h.not_isFlag
  · exact h.2.2.2
  · exact h.1.2.1

theorem decided_concat_iff :
    Decided (earlier ++ [argument]) ↔ Decided earlier ∨ Decisive earlier argument := by
  constructor
  · rintro ⟨before, a, after, hparts, h⟩
    -- The decisive argument is the last one, or it stands among the earlier.
    rcases List.eq_nil_or_concat' after with rfl | ⟨after, last, rfl⟩
    · obtain ⟨rfl, ha⟩ := List.append_inj' hparts rfl
      cases ha
      exact .inr h
    · rw [← List.cons_append, ← List.append_assoc] at hparts
      exact .inl ⟨before, a, after, (List.append_inj' hparts rfl).1, h⟩
  · rintro (⟨before, a, after, rfl, h⟩ | h)
    · exact ⟨before, a, after ++ [argument], by rw [List.append_assoc, List.cons_append], h⟩
    · exact ⟨earlier, argument, [], rfl, h⟩

/-- Where some argument is decisive, one is the first. -/
theorem exists_firstDecisive (h : Decided arguments) : ∃ a, FirstDecisive arguments a := by
  induction arguments using List.reverseRecOn with
  | nil =>
    obtain ⟨before, a, after, hparts, -⟩ := h
    exact absurd hparts.symm (List.append_ne_nil_of_right_ne_nil _ (List.cons_ne_nil _ _))
  | append_singleton earlier argument ih =>
    by_cases hearlier : Decided earlier
    · obtain ⟨a, before, after, rfl, ha, hbefore⟩ := ih hearlier
      exact ⟨a, before, after ++ [argument], by rw [List.append_assoc, List.cons_append], ha,
        hbefore⟩
    · exact ⟨argument, earlier, [], rfl, (decided_concat_iff.1 h).resolve_left hearlier, hearlier⟩

/-! ## What is gathered -/

/-- What is known of a command line when none of these arguments is decisive. -/
def gathered (arguments : List String) : Known where
  program := arguments.find? (IsPositional ·)
  trace := decide ("-t" ∈ arguments ∨ "--trace" ∈ arguments)
  timestamps := decide ("--no-timestamp" ∉ arguments)

theorem gathered_concat_trace (h : AsksTrace argument) :
    gathered (earlier ++ [argument]) = { gathered earlier with trace := true } := by
  have hother : ¬ IsPositional argument ∧ argument ≠ "--no-timestamp" := by
    rcases h with rfl | rfl
    · decide
    · decide
  have htrace : ("-t" ∈ earlier ∨ "-t" = argument) ∨ "--trace" ∈ earlier ∨ "--trace" = argument := by
    rcases h with rfl | rfl
    · exact .inl (.inr rfl)
    · exact .inr (.inr rfl)
  simp [gathered, List.find?_append, htrace, hother.1, hother.2.symm]

theorem gathered_concat_noTimestamp :
    gathered (earlier ++ ["--no-timestamp"]) = { gathered earlier with timestamps := false } := by
  have hother : ¬ IsPositional "--no-timestamp" := by decide
  simp [gathered, List.find?_append, hother]

theorem gathered_concat_positional (h : IsPositional argument)
    (hfirst : (gathered earlier).program = none) :
    gathered (earlier ++ [argument]) = { gathered earlier with program := some argument } := by
  have hflag (flag : String) (hflag : IsFlag flag) : flag ≠ argument := by
    rintro rfl
    exact h.2.1 hflag
  have hnone : earlier.find? (IsPositional ·) = none := hfirst
  simp [gathered, List.find?_append, h, hnone, hflag "-t" (by decide), hflag "--trace" (by decide),
    hflag "--no-timestamp" (by decide)]

/-- A path is gathered exactly if there is a positional argument. -/
theorem program_gathered_eq_none_iff :
    (gathered arguments).program = none ↔ ∀ a ∈ arguments, ¬ IsPositional a := by
  simp [gathered]

/-- The answer to a decisive argument. -/
def answer (argument : String) : Except UsageError Request :=
  if AsksHelp argument then .ok .help
  else if IsUnknownOption argument then .error (.unknownOption argument)
  else .error (.unexpectedArgument argument)

/-! ## Reading one argument -/

/-- An argument that is not decisive is gathered. -/
theorem read_gathered_of_not_decisive (h : ¬ Decisive earlier argument) (rest : List String) :
    read (gathered earlier) (argument :: rest) = read (gathered (earlier ++ [argument])) rest := by
  rw [read]
  rcases classify_cases argument with ⟨hkind, hclass⟩ | ⟨hkind, hclass⟩ | ⟨rfl, hclass⟩ |
    ⟨hkind, hclass⟩ | ⟨hkind, hclass⟩
  · exact absurd (.inl hkind) h
  · rw [hclass, gathered_concat_trace hkind]
  · rw [hclass, gathered_concat_noTimestamp]
  · exact absurd (.inr (.inl hkind)) h
  · have hfirst : (gathered earlier).program = none := by
      rw [program_gathered_eq_none_iff]
      exact fun path hpath hpos => h (.inr (.inr ⟨hkind, path, hpath, hpos⟩))
    rw [hclass, gathered_concat_positional hkind hfirst, hfirst]

/-- A decisive argument is answered, whatever follows. -/
theorem read_gathered_of_decisive (h : Decisive earlier argument) (rest : List String) :
    read (gathered earlier) (argument :: rest) = answer argument := by
  have hflag := h.not_isFlag
  rw [read, answer]
  rcases classify_cases argument with ⟨hkind, hclass⟩ | ⟨hkind, hclass⟩ | ⟨rfl, hclass⟩ |
    ⟨hkind, hclass⟩ | ⟨hkind, hclass⟩
  · rw [hclass, if_pos hkind]
  · exact absurd (.inl hkind) hflag
  · exact absurd (.inr rfl) hflag
  · rw [hclass, if_neg hkind.2.2.1, if_pos hkind]
  · have hsecond : ∃ path ∈ earlier, IsPositional path :=
      ((h.resolve_left hkind.1).resolve_left hkind.2.2).2
    obtain ⟨path, hpath, hpos⟩ := hsecond
    obtain ⟨first, hfirst⟩ := Option.ne_none_iff_exists'.1
      fun hnone => program_gathered_eq_none_iff.1 hnone path hpath hpos
    rw [hclass, hfirst, if_neg hkind.1, if_neg hkind.2.2]

/-! ## Reading a command line -/

/-- As long as no argument is decisive, all of them are gathered. -/
theorem ofArguments_append (h : ¬ Decided earlier) (rest : List String) :
    ofArguments (earlier ++ rest) = read (gathered earlier) rest := by
  induction earlier using List.reverseRecOn generalizing rest with
  | nil => rfl
  | append_singleton earlier argument ih =>
    rw [decided_concat_iff, not_or] at h
    rw [List.append_assoc, List.singleton_append, ih h.1, read_gathered_of_not_decisive h.2]

theorem ofArguments_of_firstDecisive (h : FirstDecisive arguments argument) :
    ofArguments arguments = answer argument := by
  obtain ⟨earlier, later, rfl, hdecisive, hearlier⟩ := h
  rw [ofArguments_append hearlier, read_gathered_of_decisive hdecisive]

theorem ofArguments_of_not_decided (h : ¬ Decided arguments) :
    ofArguments arguments = read (gathered arguments) [] := by
  rw [← ofArguments_append h, List.append_nil]

/-- Where no argument is decisive, a path stands in the line once at most. -/
theorem program_gathered_of_not_decided (h : ¬ Decided arguments) {path : String}
    (hmem : path ∈ arguments) (hpath : IsPositional path) :
    (gathered arguments).program = some path := by
  obtain ⟨earlier, later, rfl⟩ := List.mem_iff_append.1 hmem
  have hearlier : ∀ a ∈ earlier, ¬ IsPositional a := fun a ha hpos =>
    h ⟨earlier, path, later, rfl, .inr (.inr ⟨hpath, a, ha, hpos⟩)⟩
  have hnone : earlier.find? (IsPositional ·) = none := program_gathered_eq_none_iff.2 hearlier
  simp [gathered, List.find?_append, hnone, hpath]

/-! ## Flags -/

theorem mem_others_iff (h : ¬ IsFlag argument) :
    argument ∈ others arguments ↔ argument ∈ arguments := by
  rw [others, List.mem_filter]
  exact and_iff_left (decide_eq_true h)

theorem others_append (earlier later : List String) :
    others (earlier ++ later) = others earlier ++ others later :=
  List.filter_append _ _

theorem others_cons_of_not_isFlag (h : ¬ IsFlag argument) (rest : List String) :
    others (argument :: rest) = argument :: others rest :=
  List.filter_cons_of_pos (decide_eq_true h)

/-- A command line without its flags can be taken apart where the line itself can. -/
theorem others_eq_append_cons {before after : List String}
    (h : others arguments = before ++ argument :: after) :
    ∃ earlier later, arguments = earlier ++ argument :: later ∧ others earlier = before := by
  obtain ⟨l₁, l₂, rfl, hbefore, hrest⟩ := List.filter_eq_append_iff.1 h
  obtain ⟨flags, later, rfl, hflags, -, -⟩ := List.filter_eq_cons_iff.1 hrest
  -- The flags right in front of the argument are counted among the earlier arguments.
  refine ⟨l₁ ++ flags, later, (List.append_assoc _ _ _).symm, ?_⟩
  have hnone : others flags = [] := List.filter_eq_nil_iff.2 hflags
  rw [others_append, hnone, List.append_nil]
  exact hbefore

/-- Flags among the earlier arguments do not make an argument decisive. -/
theorem decisive_others_iff : Decisive (others earlier) argument ↔ Decisive earlier argument := by
  have hpath : (∃ path ∈ others earlier, IsPositional path) ↔
      ∃ path ∈ earlier, IsPositional path :=
    exists_congr fun path => and_congr_left fun hpos => mem_others_iff hpos.2.1
  rw [Decisive, hpath, Decisive]

theorem decided_others_iff : Decided (others arguments) ↔ Decided arguments := by
  constructor
  · rintro ⟨before, argument, after, hparts, h⟩
    obtain ⟨earlier, later, rfl, rfl⟩ := others_eq_append_cons hparts
    exact ⟨earlier, argument, later, rfl, decisive_others_iff.1 h⟩
  · rintro ⟨earlier, argument, later, rfl, h⟩
    refine ⟨others earlier, argument, others later, ?_, decisive_others_iff.2 h⟩
    rw [others_append, others_cons_of_not_isFlag h.not_isFlag]

/-- Without its flags, a command line has the same first decisive argument. -/
theorem firstDecisive_others_iff :
    FirstDecisive (others arguments) argument ↔ FirstDecisive arguments argument := by
  constructor
  · rintro ⟨before, after, hparts, h, hbefore⟩
    obtain ⟨earlier, later, rfl, rfl⟩ := others_eq_append_cons hparts
    exact ⟨earlier, later, rfl, decisive_others_iff.1 h, mt decided_others_iff.2 hbefore⟩
  · rintro ⟨earlier, later, rfl, h, hearlier⟩
    refine ⟨others earlier, others later, ?_, decisive_others_iff.2 h,
      mt decided_others_iff.1 hearlier⟩
    rw [others_append, others_cons_of_not_isFlag h.not_isFlag]

/-- The path that is gathered is no flag. -/
theorem program_gathered_others :
    (gathered (others arguments)).program = (gathered arguments).program := by
  show (others arguments).find? (IsPositional ·) = arguments.find? (IsPositional ·)
  rw [others, List.find?_filter]
  congr 1
  funext a
  exact decide_eq_decide.2 ⟨fun h => of_decide_eq_true h.2,
    fun h => ⟨decide_eq_true h.2.1, decide_eq_true h⟩⟩

theorem AlikeButForFlags.gathered_eq (h : AlikeButForFlags arguments arguments') :
    gathered arguments = gathered arguments' := by
  have hprogram : (gathered arguments).program = (gathered arguments').program := by
    rw [← program_gathered_others, h.others, program_gathered_others]
  have hshort := h.flags "-t" (by decide)
  have hlong := h.flags "--trace" (by decide)
  have hstamp := h.flags "--no-timestamp" (by decide)
  rw [Known.mk.injEq]
  exact ⟨hprogram, decide_eq_decide.2 (or_congr hshort hlong), decide_eq_decide.2 (not_congr hstamp)⟩

/-- Where flags stand and how often makes no difference. -/
theorem AlikeButForFlags.ofArguments_eq (h : AlikeButForFlags arguments arguments') :
    ofArguments arguments' = ofArguments arguments := by
  by_cases hdecided : Decided arguments
  · obtain ⟨a, ha⟩ := exists_firstDecisive hdecided
    have ha' : FirstDecisive arguments' a := by
      rw [← firstDecisive_others_iff, ← h.others, firstDecisive_others_iff]
      exact ha
    rw [ofArguments_of_firstDecisive ha, ofArguments_of_firstDecisive ha']
  · have hdecided' : ¬ Decided arguments' := by
      rw [← decided_others_iff, ← h.others, decided_others_iff]
      exact hdecided
    rw [ofArguments_of_not_decided hdecided, ofArguments_of_not_decided hdecided', h.gathered_eq]

/-- **The first decisive argument answers.** A request for help, an unknown option and a positional
argument behind another are decisive. If there are such arguments, the first of them alone is
answered. If there are none, the path is missing, or it is the positional argument there is; there is
a trace exactly if one of the options for it stands anywhere, and there are no timestamps exactly if
the option against them does. Flags may be moved and repeated, and the answer stays as it is. -/
theorem first_decisive_argument_answers (arguments : List String) :
    (Decided arguments → ∃ argument, FirstDecisive arguments argument ∧
      (AsksHelp argument → ofArguments arguments = .ok .help) ∧
      (IsUnknownOption argument → ofArguments arguments = .error (.unknownOption argument)) ∧
      (IsPositional argument → ofArguments arguments = .error (.unexpectedArgument argument))) ∧
    (¬ Decided arguments →
      ((∀ argument ∈ arguments, ¬ IsPositional argument) →
        ofArguments arguments = .error .missingProgram) ∧
      ∀ path ∈ arguments, IsPositional path →
        ∃ config, ofArguments arguments = .ok (.run config) ∧ config.program = path ∧
          (config.trace = true ↔ "-t" ∈ arguments ∨ "--trace" ∈ arguments) ∧
          (config.timestamps = false ↔ "--no-timestamp" ∈ arguments)) ∧
    ∀ arguments', AlikeButForFlags arguments arguments' →
      ofArguments arguments' = ofArguments arguments := by
  refine ⟨fun hdecided => ?_, fun hdecided => ⟨fun hnone => ?_, fun path hmem hpath => ?_⟩,
    fun arguments' h => h.ofArguments_eq⟩
  · obtain ⟨argument, hfirst⟩ := exists_firstDecisive hdecided
    refine ⟨argument, hfirst, ?_⟩
    rw [ofArguments_of_firstDecisive hfirst, answer]
    refine ⟨fun h => if_pos h, fun h => ?_, fun h => ?_⟩
    · rw [if_neg h.2.2.1, if_pos h]
    · rw [if_neg h.1, if_neg h.2.2]
  · rw [ofArguments_of_not_decided hdecided, read, program_gathered_eq_none_iff.2 hnone]
  · rw [ofArguments_of_not_decided hdecided, read,
      program_gathered_of_not_decided hdecided hmem hpath]
    refine ⟨_, rfl, rfl, decide_eq_true_iff, ?_⟩
    show decide ("--no-timestamp" ∉ arguments) = false ↔ _
    rw [decide_eq_false_iff_not, not_not]

/-- A lone dash is a path, also when the flags around it are moved in front and one is repeated; two
dashes are an unknown option, and the request for help behind them is not seen. -/
theorem first_decisive_argument_answers_of_dashes :
    ¬ Decided ["-t", "-", "--no-timestamp"] ∧ IsPositional "-" ∧
      AlikeButForFlags ["-t", "-", "--no-timestamp"] ["--no-timestamp", "-t", "-t", "-"] ∧
      (∃ config, ofArguments ["--no-timestamp", "-t", "-t", "-"] = .ok (.run config) ∧
        config.program = "-" ∧ config.trace = true ∧ config.timestamps = false) ∧
      Decided ["-t", "a", "--", "-h"] ∧ IsUnknownOption "--" ∧
      ∃ argument, FirstDecisive ["-t", "a", "--", "-h"] argument ∧
        (IsUnknownOption argument →
          ofArguments ["-t", "a", "--", "-h"] = .error (.unknownOption argument)) := by
  have hopen : ¬ Decided ["-t", "-", "--no-timestamp"] := by decide
  have halike :
      AlikeButForFlags ["-t", "-", "--no-timestamp"] ["--no-timestamp", "-t", "-t", "-"] := by
    refine ⟨by decide, ?_⟩
    rintro flag ((rfl | rfl) | rfl)
    · decide
    · decide
    · decide
  have hdecided : Decided ["-t", "a", "--", "-h"] := by decide
  obtain ⟨-, hend, hflags⟩ := first_decisive_argument_answers ["-t", "-", "--no-timestamp"]
  obtain ⟨config, hconfig, hpath, htrace, hstamps⟩ := (hend hopen).2 "-" (by decide) (by decide)
  obtain ⟨argument, hfirst, -, hunknown, -⟩ :=
    (first_decisive_argument_answers ["-t", "a", "--", "-h"]).1 hdecided
  exact ⟨hopen, by decide, halike, ⟨config, (hflags _ halike).trans hconfig, hpath,
    htrace.2 (by decide), hstamps.2 (by decide)⟩, hdecided, by decide, argument, hfirst, hunknown⟩

end Request

end ByteMachine
