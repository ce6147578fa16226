import ByteMachine.Proofs.Literal
import ByteMachine.Proofs.Text

/-!
# The format of program sources

`Source.Spells` generates the sources of a list of bytes line by line: a line is a literal between
blanks, or only blanks, with or without a comment, and ends in a line feed or a carriage return and a
line feed; the last line may end with the text. `Source.FirstMalformed` says which line of a text is
the first that is neither. Reading answers with the bytes exactly for the sources of these bytes
(`read_eq_ok_iff`), and with a malformed line exactly if it is the first (`read_eq_error_iff`).

The two meet in the reading of one line, `reading?`. That a carriage return before a line feed
belongs to the terminator does not matter, because at the end of a line it is a blank or part of a
comment (`reading?_concat_return`).
-/

namespace ByteMachine.Source

/-! ## The format -/

/-- White space within a line. -/
def Blanks (s : List Char) : Prop := Text.Blank s ∧ '\n' ∉ s

/-- A comment, or nothing. It goes to the end of its line. -/
inductive Comment : List Char → Prop
  | none : Comment []
  | some {text : List Char} (h : '\n' ∉ text) : Comment ('#' :: text)

/-- A line without its terminator, and the byte it spells, unless it is skipped. -/
inductive SpellsLine : List Char → Option UInt8 → Prop
  | skipped {blanks comment : List Char} (hblanks : Blanks blanks) (hcomment : Comment comment) :
      SpellsLine (blanks ++ comment) none
  | literal {before token after comment : List Char} {byte : UInt8} (hbefore : Blanks before)
      (htoken : Literal.Spells byte token) (hafter : Blanks after) (hcomment : Comment comment) :
      SpellsLine (before ++ token ++ after ++ comment) (some byte)

/-- What ends a line. -/
inductive Terminator : List Char → Prop
  | lineFeed : Terminator ['\n']
  | returnLineFeed : Terminator ['\r', '\n']

/-- A source, and the bytes that its lines spell. -/
inductive Spells : List Char → List UInt8 → Prop
  | last {line : List Char} {byte? : Option UInt8} (hline : SpellsLine line byte?) :
      Spells line byte?.toList
  | line {line terminator rest : List Char} {byte? : Option UInt8} {bytes : List UInt8}
      (hline : SpellsLine line byte?) (hterminator : Terminator terminator)
      (hrest : Spells rest bytes) :
      Spells (line ++ terminator ++ rest) (byte?.toList ++ bytes)

/-- A line that is neither skipped nor a literal. -/
def IsMalformed (line : List Char) : Prop :=
  token line ≠ [] ∧ ∀ byte, ¬ Literal.Spells byte (token line)

/-- The first line of a text that is neither skipped nor a literal: its number, counted from one, and
the column and the text of what stands there. -/
def FirstMalformed (source : List Char) (m : Malformed) : Prop :=
  ∃ before line after, Text.lines source = before ++ line :: after ∧
    (∀ earlier ∈ before, ¬ IsMalformed earlier) ∧ IsMalformed line ∧
    m = ⟨before.length + 1, offset line, String.ofList (token line)⟩

/-! ## What a line holds -/

theorem Blanks.nil : Blanks [] := ⟨fun _ hc => absurd hc List.not_mem_nil, List.not_mem_nil⟩

theorem Blanks.append {s t : List Char} (hs : Blanks s) (ht : Blanks t) : Blanks (s ++ t) := by
  refine ⟨fun c hc => ?_, fun hmem => ?_⟩
  · rcases List.mem_append.1 hc with h | h
    · exact hs.1 c h
    · exact ht.1 c h
  · rcases List.mem_append.1 hmem with h | h
    · exact hs.2 h
    · exact ht.2 h

theorem Blanks.singleton {c : Char} (hblank : Text.isBlank c = true) (hc : c ≠ '\n') :
    Blanks [c] := by
  refine ⟨fun d hd => ?_, fun hmem => hc (List.mem_singleton.1 hmem).symm⟩
  rw [List.mem_singleton.1 hd]
  exact hblank

/-- No blank begins a comment. -/
theorem Blanks.hash_not_mem {s : List Char} (h : Blanks s) : '#' ∉ s := by
  intro hmem
  have hhash : Text.isBlank '#' = false := by decide
  have := h.1 _ hmem
  rw [hhash] at this
  cases this

theorem Comment.not_mem {s : List Char} (h : Comment s) : '\n' ∉ s := by
  cases h with
  | none => exact List.not_mem_nil
  | some htext =>
    rw [List.mem_cons, not_or]
    exact ⟨by decide, htext⟩

/-- A text without a number sign is code. -/
theorem code_append_of_not_mem {s : List Char} (h : '#' ∉ s) (t : List Char) :
    code (s ++ t) = s ++ code t := by
  refine List.takeWhile_append_of_pos fun c hc => bne_iff_ne.2 ?_
  rintro rfl
  exact h hc

/-- The code of a line stops where its comment starts. -/
theorem code_append {s comment : List Char} (hs : '#' ∉ s) (hcomment : Comment comment) :
    code (s ++ comment) = s := by
  rw [code_append_of_not_mem hs]
  cases hcomment with
  | none => exact List.append_nil s
  | some _ => exact List.append_nil s

/-- A line is its code and its comment. -/
theorem exists_comment {line : List Char} (h : '\n' ∉ line) :
    ∃ comment, Comment comment ∧ line = code line ++ comment := by
  refine ⟨line.dropWhile (· != '#'), ?_, List.takeWhile_append_dropWhile.symm⟩
  have hrest : '\n' ∉ line.dropWhile (· != '#') := fun hmem =>
    h ((List.dropWhile_suffix _).subset hmem)
  have hhead := List.head?_dropWhile_not (· != '#') line
  cases hdrop : line.dropWhile (· != '#') with
  | nil => exact .none
  | cons c text =>
    rw [hdrop] at hrest hhead
    have hc : c = '#' := by simpa using hhead
    rw [hc]
    exact .some fun hmem => hrest (List.mem_cons_of_mem c hmem)

theorem hash_not_mem_code (line : List Char) : '#' ∉ code line := by
  intro hmem
  have := List.mem_takeWhile_imp hmem
  simp at this

/-- A carriage return at the end of a line belongs to its comment or is the last of its code. -/
theorem code_concat_return (line : List Char) :
    code (line ++ ['\r']) = code line ∨ code (line ++ ['\r']) = code line ++ ['\r'] := by
  by_cases h : '#' ∈ line
  · left
    unfold code
    rw [List.takeWhile_append, if_neg]
    intro hlength
    have hall := (List.takeWhile_prefix _).eq_of_length hlength
    refine hash_not_mem_code line ?_
    rw [code, hall]
    exact h
  · right
    have hline := code_append h .none
    rw [List.append_nil] at hline
    rw [hline]
    exact code_append_of_not_mem h ['\r']

theorem hash_not_mem_token (line : List Char) : '#' ∉ token line := by
  intro hmem
  obtain ⟨after, -, hcode⟩ := Text.exists_trim (code line)
  refine hash_not_mem_code line ?_
  rw [hcode]
  exact List.mem_append_left _ (List.mem_append_right _ hmem)

/-- The token of a line is what stands between its blanks. -/
theorem token_eq {before t after comment : List Char} (hbefore : Blanks before)
    (ht : Text.Tight t) (hhash : '#' ∉ t) (hafter : Blanks after) (hcomment : Comment comment) :
    token (before ++ t ++ after ++ comment) = t := by
  have hcode : '#' ∉ before ++ t ++ after := by
    rw [List.mem_append, List.mem_append, not_or, not_or]
    exact ⟨⟨hbefore.hash_not_mem, hhash⟩, hafter.hash_not_mem⟩
  unfold token
  rw [code_append hcode hcomment]
  exact Text.trim_eq_of_tight hbefore.1 ht hafter.1

/-- A line is blanks, its token, blanks and a comment; the blanks in front are all the blanks at its
start. -/
theorem exists_token {line : List Char} (h : '\n' ∉ line) :
    ∃ before after comment, before = (code line).takeWhile Text.isBlank ∧ Blanks before ∧
      Blanks after ∧ Comment comment ∧ '#' ∉ token line ∧
      line = before ++ token line ++ after ++ comment := by
  obtain ⟨comment, hcomment, hline⟩ := exists_comment h
  obtain ⟨after, hafter, hcode⟩ := Text.exists_trim (code line)
  have hmem {c : Char} (hc : c ∈ code line) : c ∈ line := by
    rw [hline]
    exact List.mem_append_left comment hc
  have hafter' : '\n' ∉ after := fun hc => h (hmem (by rw [hcode]; exact List.mem_append_right _ hc))
  have hbefore' : '\n' ∉ (code line).takeWhile Text.isBlank := fun hc =>
    h (hmem ((List.takeWhile_prefix _).subset hc))
  refine ⟨_, after, comment, rfl, ⟨Text.blank_takeWhile _, hbefore'⟩, ⟨hafter, hafter'⟩, hcomment,
    hash_not_mem_token line, ?_⟩
  conv => lhs; rw [hline, hcode]
  rfl

theorem blanks_return : Blanks ['\r'] := .singleton (by decide) (by decide)

/-- A carriage return at the end of a line is none of its token. -/
theorem token_concat_return (line : List Char) : token (line ++ ['\r']) = token line := by
  rcases code_concat_return line with h | h
  · rw [token, h, token]
  · rw [token, h, token, Text.trim_append blanks_return.1]

/-! ## Reading a line -/

/-- What a line comes to: the byte it spells, unless it is skipped; nothing at all if it is
malformed. -/
def reading? (line : List Char) : Option (Option UInt8) :=
  if token line = [] then some none else (Literal.parse? (token line)).map some

theorem reading?_eq_none_iff {line : List Char} : reading? line = none ↔ IsMalformed line := by
  unfold reading? IsMalformed
  by_cases h : token line = []
  · simp [h]
  · simp only [h, if_false, Option.map_eq_none_iff, ne_eq, not_false_eq_true, true_and]
    rw [Option.eq_none_iff_forall_ne_some]
    exact forall_congr' fun byte => not_congr Literal.parse?_eq_some_iff

theorem reading?_concat_return (line : List Char) : reading? (line ++ ['\r']) = reading? line := by
  unfold reading?
  rw [token_concat_return]

theorem reading?_dropReturn (line : List Char) : reading? (Text.dropReturn line) = reading? line := by
  rcases Text.dropReturn_cases line with heq | heq
  · rw [heq]
  · conv => rhs; rw [heq]
    exact (reading?_concat_return _).symm

/-- A literal stands where it is put: it has no blank at its ends and no comment in it. -/
theorem token_eq_of_spells {before token after comment : List Char} {byte : UInt8}
    (hbefore : Blanks before) (htoken : Literal.Spells byte token) (hafter : Blanks after)
    (hcomment : Comment comment) : Source.token (before ++ token ++ after ++ comment) = token := by
  have hmem {c : Char} (hc : c ∈ token) : Text.isBlank c = false ∧ c ≠ '#' := by
    rcases htoken.mem_cases hc with rfl | rfl | rfl | rfl | rfl
    all_goals decide
  have htight : Text.Tight token :=
    ⟨fun c hc => (hmem (List.mem_of_mem_head? hc)).1,
      fun c hc => (hmem (List.mem_of_mem_getLast? hc)).1⟩
  exact token_eq hbefore htight (fun hhash => (hmem hhash).2 rfl) hafter hcomment

theorem SpellsLine.not_mem {line : List Char} {byte? : Option UInt8} (h : SpellsLine line byte?) :
    '\n' ∉ line := by
  cases h with
  | skipped hblanks hcomment =>
    rw [List.mem_append, not_or]
    exact ⟨hblanks.2, hcomment.not_mem⟩
  | @literal before token after comment byte hbefore htoken hafter hcomment =>
    have htoken' : '\n' ∉ token := by
      intro hmem
      have := htoken.mem_cases hmem
      revert this
      decide
    rw [List.mem_append, List.mem_append, List.mem_append, not_or, not_or, not_or]
    exact ⟨⟨⟨hbefore.2, htoken'⟩, hafter.2⟩, hcomment.not_mem⟩

/-- A line is read as what it spells. -/
theorem SpellsLine.reading?_eq {line : List Char} {byte? : Option UInt8}
    (h : SpellsLine line byte?) : reading? line = some byte? := by
  unfold reading?
  cases h with
  | @skipped blanks comment hblanks hcomment =>
    have htoken := token_eq hblanks Text.tight_nil List.not_mem_nil .nil hcomment
    rw [List.append_nil, List.append_nil] at htoken
    exact if_pos htoken
  | literal hbefore htoken hafter hcomment =>
    rw [token_eq_of_spells hbefore htoken hafter hcomment, if_neg htoken.ne_nil, htoken.parse?_eq]
    rfl

/-- What is read of a line is what the line spells. -/
theorem spellsLine_of_reading? {line : List Char} {byte? : Option UInt8} (hline : '\n' ∉ line)
    (h : reading? line = some byte?) : SpellsLine line byte? := by
  obtain ⟨before, after, comment, -, hbefore, hafter, hcomment, -, hparts⟩ := exists_token hline
  unfold reading? at h
  by_cases htoken : token line = []
  · rw [if_pos htoken] at h
    cases h
    rw [htoken, List.append_nil] at hparts
    rw [hparts]
    exact .skipped (hbefore.append hafter) hcomment
  · rw [if_neg htoken] at h
    obtain ⟨byte, hbyte, rfl⟩ := Option.map_eq_some_iff.1 h
    rw [hparts]
    exact .literal hbefore (Literal.spells_of_parse?_eq hbyte) hafter hcomment

/-! ## Reading lines -/

theorem readLines_cons (number : Nat) (line : List Char) (rest : List (List Char)) :
    readLines number (line :: rest) = match reading? line with
      | some byte? => (readLines (number + 1) rest).map (byte?.toList ++ ·)
      | none => .error ⟨number, offset line, String.ofList (token line)⟩ := by
  rw [readLines, reading?]
  by_cases h : token line = []
  · rw [if_pos h, if_pos h]
    cases readLines (number + 1) rest <;> rfl
  · rw [if_neg h, if_neg h]
    cases Literal.parse? (token line) <;> rfl

theorem readLines_cons_eq_ok_iff {number : Nat} {line : List Char} {rest : List (List Char)}
    {bytes : List UInt8} :
    readLines number (line :: rest) = .ok bytes ↔
      ∃ byte? later, reading? line = some byte? ∧ readLines (number + 1) rest = .ok later ∧
        bytes = byte?.toList ++ later := by
  rw [readLines_cons]
  cases hline : reading? line with
  | none => simp
  | some byte? =>
    cases hrest : readLines (number + 1) rest with
    | error m => simp [Except.map]
    | ok later => simp [Except.map, eq_comm]

/-- What stands before the line feed that ends a line is read as the line, whether a carriage return
belongs to it or not. -/
theorem SpellsLine.exists_ended {line terminator : List Char} {byte? : Option UInt8}
    (hline : SpellsLine line byte?) (hterminator : Terminator terminator) :
    ∃ ended, '\n' ∉ ended ∧ reading? ended = some byte? ∧
      line ++ terminator = ended ++ ['\n'] := by
  cases hterminator with
  | lineFeed => exact ⟨line, hline.not_mem, hline.reading?_eq, rfl⟩
  | returnLineFeed =>
    refine ⟨line ++ ['\r'], ?_, ?_, ?_⟩
    · rw [List.mem_append, not_or]
      exact ⟨hline.not_mem, by decide⟩
    · rw [reading?_concat_return]
      exact hline.reading?_eq
    · rw [List.append_assoc]
      rfl

/-- A source reads as its bytes, from any line number on. -/
theorem Spells.readLines_eq {source : List Char} {bytes : List UInt8} (h : Spells source bytes)
    (number : Nat) : readLines number (Text.lines source) = .ok bytes := by
  induction h generalizing number with
  | @last line byte? hline =>
    rw [Text.lines_of_not_mem hline.not_mem]
    by_cases hnil : line = []
    · -- An empty text has no line; the format has a skipped one there.
      rw [if_pos hnil]
      have hread := hline.reading?_eq
      rw [hnil] at hread
      cases hread
      rfl
    · rw [if_neg hnil]
      exact readLines_cons_eq_ok_iff.2 ⟨byte?, [], hline.reading?_eq, rfl, (List.append_nil _).symm⟩
  | @line line terminator rest byte? bytes hline hterminator hrest ih =>
    obtain ⟨ended, hended, hread, htext⟩ := hline.exists_ended hterminator
    rw [← reading?_dropReturn] at hread
    rw [htext, List.append_assoc, List.singleton_append, Text.lines_append hended]
    exact readLines_cons_eq_ok_iff.2 ⟨byte?, bytes, hread, ih _, rfl⟩

/-- What reads as bytes is a source of them. A carriage return before a line feed is taken for the
line's last blank, or for the end of its comment. -/
theorem spells_of_readLines_eq {source : List Char} {bytes : List UInt8} {number : Nat}
    (h : readLines number (Text.lines source) = .ok bytes) : Spells source bytes := by
  induction source using Text.line_induction generalizing bytes number with
  | last s hs =>
    rw [Text.lines_of_not_mem hs] at h
    by_cases hnil : s = []
    · rw [if_pos hnil] at h
      cases h
      rw [hnil]
      exact .last (.skipped .nil .none)
    · rw [if_neg hnil] at h
      obtain ⟨byte?, later, hline, hlater, rfl⟩ := readLines_cons_eq_ok_iff.1 h
      cases hlater
      rw [List.append_nil]
      exact .last (spellsLine_of_reading? hs hline)
  | line s rest hs ih =>
    rw [Text.lines_append hs] at h
    obtain ⟨byte?, later, hline, hlater, rfl⟩ := readLines_cons_eq_ok_iff.1 h
    rw [reading?_dropReturn] at hline
    have hspells := Spells.line (spellsLine_of_reading? hs hline) .lineFeed (ih hlater)
    rwa [List.append_assoc] at hspells

theorem read_eq_ok_iff {source : List Char} {bytes : List UInt8} :
    read source = .ok bytes ↔ Spells source bytes :=
  ⟨spells_of_readLines_eq, fun h => h.readLines_eq 1⟩

/-! ## The first malformed line -/

theorem readLines_cons_of_malformed {number : Nat} {line : List Char} {rest : List (List Char)}
    (h : IsMalformed line) : readLines number (line :: rest) =
      .error ⟨number, offset line, String.ofList (token line)⟩ := by
  rw [readLines_cons, reading?_eq_none_iff.2 h]

/-- A line that is not malformed leaves the error to the lines behind it. -/
theorem readLines_cons_eq_error_iff {number : Nat} {line : List Char} {rest : List (List Char)}
    {m : Malformed} (h : ¬ IsMalformed line) :
    readLines number (line :: rest) = .error m ↔ readLines (number + 1) rest = .error m := by
  rw [readLines_cons]
  cases hline : reading? line with
  | none => exact absurd (reading?_eq_none_iff.1 hline) h
  | some byte? => cases readLines (number + 1) rest <;> simp [Except.map]

theorem readLines_eq_error_iff {lines : List (List Char)} {m : Malformed} (number : Nat) :
    readLines number lines = .error m ↔
      ∃ before line after, lines = before ++ line :: after ∧
        (∀ earlier ∈ before, ¬ IsMalformed earlier) ∧ IsMalformed line ∧
        m = ⟨number + before.length, offset line, String.ofList (token line)⟩ := by
  induction lines generalizing number with
  | nil =>
    constructor
    · intro h
      cases h
    · rintro ⟨before, line, after, hlines, -⟩
      exact absurd hlines (by simp)
  | cons line rest ih =>
    by_cases hline : IsMalformed line
    · rw [readLines_cons_of_malformed hline]
      constructor
      · intro h
        cases h
        exact ⟨[], line, rest, rfl, fun _ hmem => absurd hmem List.not_mem_nil, hline, rfl⟩
      · rintro ⟨before, found, after, hlines, hbefore, -, rfl⟩
        cases before with
        | nil =>
          cases hlines
          rfl
        | cons earlier before =>
          cases hlines
          exact absurd hline (hbefore line List.mem_cons_self)
    · rw [readLines_cons_eq_error_iff hline, ih]
      constructor
      · rintro ⟨before, found, after, rfl, hbefore, hfound, rfl⟩
        refine ⟨line :: before, found, after, rfl, List.forall_mem_cons.2 ⟨hline, hbefore⟩, hfound, ?_⟩
        rw [List.length_cons, Nat.add_assoc, Nat.add_comm 1]
      · rintro ⟨before, found, after, hlines, hbefore, hfound, rfl⟩
        cases before with
        | nil =>
          cases hlines
          exact absurd hfound hline
        | cons earlier before =>
          cases hlines
          refine ⟨before, found, after, rfl, (List.forall_mem_cons.1 hbefore).2, hfound, ?_⟩
          rw [List.length_cons, Nat.add_assoc, Nat.add_comm 1]

theorem read_eq_error_iff {source : List Char} {m : Malformed} :
    read source = .error m ↔ FirstMalformed source m := by
  rw [read, readLines_eq_error_iff 1]
  simp only [FirstMalformed, Nat.add_comm 1]

/-- **Reading reads the whole format.** A text reads as a list of bytes exactly if it is a source of
them: one literal for each byte, in order, each on a line of its own between blanks and before a
comment, and any number of lines in between without a literal. -/
theorem parse_eq_ok_iff_spells (source : String) (bytes : List UInt8) :
    parse source = .ok bytes ↔ Spells source.toList bytes :=
  read_eq_ok_iff

end ByteMachine.Source
