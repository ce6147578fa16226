import ByteMachine.Proofs.Concatenation
import Mathlib.Logic.Relation

/-!
# Layout

Much of a source is there for its reader: comments, white space at the end of a line, the way lines
are ended. `Edit` changes one of these, and any number of edits in a row make a text that reads as
the first one does, the place of a malformed line included (`parse_eq_of_relaid`).

Reading looks at two things in a line, its token and the column where the token begins
(`ReadAlike`). Neither depends on what is behind the token, which is blanks and a comment; a column
does depend on what is before it, so white space at the start of a line is not layout. A carriage
return before a line feed is one more blank or the last character of a comment, wherever it is
looked for.
-/

namespace ByteMachine.Source

/-! ## Edits -/

/-- The text with a carriage return in front of every line feed. -/
def withReturns (s : List Char) : List Char :=
  s.flatMap fun c => if c = '\n' then ['\r', '\n'] else [c]

theorem withReturns_of_not_mem {s : List Char} (h : '\n' ∉ s) : withReturns s = s := by
  induction s with
  | nil => rfl
  | cons c s ih =>
    rw [List.mem_cons, not_or] at h
    obtain ⟨hc, hs⟩ := h
    rw [withReturns, List.flatMap_cons, if_neg (Ne.symm hc), ← withReturns, ih hs]
    rfl

theorem withReturns_append {s : List Char} (h : '\n' ∉ s) (rest : List Char) :
    withReturns (s ++ '\n' :: rest) = (s ++ ['\r']) ++ '\n' :: withReturns rest := by
  have hs := withReturns_of_not_mem h
  unfold withReturns at hs ⊢
  rw [List.flatMap_append, hs, List.append_assoc]
  rfl

/-- A change at the end of a line. -/
inductive LineEdit : List Char → List Char → Prop
  /-- A comment is replaced by another, taken away or put where none was. -/
  | comment {s old new : List Char} (hhash : '#' ∉ s) (hbreak : '\n' ∉ s) (hold : Comment old)
      (hnew : Comment new) : LineEdit (s ++ old) (s ++ new)
  /-- The blanks in front of the comment become more, fewer or others. -/
  | blanks {s old new comment : List Char} (hhash : '#' ∉ s) (hbreak : '\n' ∉ s)
      (hold : Blanks old) (hnew : Blanks new) (hcomment : Comment comment) :
      LineEdit (s ++ old ++ comment) (s ++ new ++ comment)

/-- A change of the layout of a text. -/
inductive Edit : List Char → List Char → Prop
  /-- One line is changed at its end. The text before is made of whole lines, and a line feed or
  nothing comes behind. -/
  | line {before old new after : List Char} (hbefore : Text.Closed before) (h : LineEdit old new)
      (hafter : after = [] ∨ after.head? = some '\n') :
      Edit (before ++ old ++ after) (before ++ new ++ after)
  /-- Every line feed becomes a carriage return and a line feed. -/
  | returns (s : List Char) : Edit s (withReturns s)
  /-- A line feed is put at the end of the text. -/
  | lineFeed (s : List Char) : Edit s (s ++ ['\n'])
  /-- A line feed is taken from the end of the text. -/
  | noLineFeed (s : List Char) : Edit (s ++ ['\n']) s

/-- The second text comes from the first by edits of its layout. -/
def Relaid : List Char → List Char → Prop := Relation.ReflTransGen Edit

/-! ## Lines that read alike -/

/-- The lines hold the same token, if any, and it begins in the same column. -/
structure ReadAlike (line line' : List Char) : Prop where
  token_eq : token line = token line'
  offset_eq : token line ≠ [] → offset line = offset line'

theorem ReadAlike.of_code_eq {line line' : List Char} (h : code line = code line') :
    ReadAlike line line' where
  token_eq := congrArg Text.trim h
  offset_eq := fun _ => by rw [offset, offset, h]

/-- Blanks at the end of the code are not read. -/
theorem ReadAlike.of_blanks {line line' s old new : List Char} (h : code line = s ++ old)
    (h' : code line' = s ++ new) (hold : Blanks old) (hnew : Blanks new) :
    ReadAlike line line' := by
  have htoken : token line = Text.trim s := by
    rw [token, h, Text.trim_append hold.1]
  refine ⟨?_, fun hne => ?_⟩
  · rw [htoken, token, h', Text.trim_append hnew.1]
  · rw [htoken] at hne
    rw [offset, offset, h, h', Text.takeWhile_isBlank_append hne, Text.takeWhile_isBlank_append hne]

theorem LineEdit.readAlike {line line' : List Char} (h : LineEdit line line') :
    ReadAlike line line' := by
  cases h with
  | comment hhash _ hold hnew =>
    refine .of_code_eq ?_
    rw [code_append hhash hold, code_append hhash hnew]
  | @blanks s old new comment hhash _ hold hnew hcomment =>
    have hcode {blanks : List Char} (h : Blanks blanks) :
        code (s ++ blanks ++ comment) = s ++ blanks := by
      refine code_append ?_ hcomment
      rw [List.mem_append, not_or]
      exact ⟨hhash, h.hash_not_mem⟩
    exact .of_blanks (hcode hold) (hcode hnew) hold hnew

/-- An edited line is one line before and after. -/
theorem LineEdit.not_mem {line line' : List Char} (h : LineEdit line line') :
    '\n' ∉ line ∧ '\n' ∉ line' := by
  cases h with
  | comment _ hbreak hold hnew =>
    simp only [List.mem_append, not_or]
    exact ⟨⟨hbreak, hold.not_mem⟩, hbreak, hnew.not_mem⟩
  | blanks _ hbreak hold hnew hcomment =>
    simp only [List.mem_append, not_or]
    exact ⟨⟨⟨hbreak, hold.2⟩, hcomment.not_mem⟩, ⟨hbreak, hnew.2⟩, hcomment.not_mem⟩

/-- A carriage return at the end of a line is a blank or belongs to the comment. -/
theorem readAlike_concat_return (line : List Char) : ReadAlike line (line ++ ['\r']) := by
  rcases code_concat_return line with h | h
  · exact .of_code_eq h.symm
  · exact .of_blanks (List.append_nil _).symm h .nil blanks_return

theorem readAlike_dropReturn (line : List Char) : ReadAlike (Text.dropReturn line) line := by
  rcases Text.dropReturn_cases line with heq | heq
  · exact .of_code_eq (congrArg code heq)
  · have hread := readAlike_concat_return (Text.dropReturn line)
    rwa [← heq] at hread

/-! ## Reading -/

/-- Where two lines read alike, one can stand for the other. -/
theorem readLines_cons_congr {number : Nat} {line line' : List Char} {rest rest' : List (List Char)}
    (h : ReadAlike line line')
    (hrest : readLines (number + 1) rest = readLines (number + 1) rest') :
    readLines number (line :: rest) = readLines number (line' :: rest') := by
  rw [readLines, readLines, ← h.token_eq, hrest]
  by_cases htoken : token line = []
  · rw [if_pos htoken, if_pos htoken]
  · rw [if_neg htoken, if_neg htoken, h.offset_eq htoken]

/-- What follows the last line feed is read as a line, even if it is empty. -/
theorem readLines_of_not_mem {s : List Char} (h : '\n' ∉ s) (number : Nat) :
    readLines number (Text.lines s) = readLines number [s] := by
  rw [Text.lines_of_not_mem h]
  by_cases hnil : s = []
  · rw [if_pos hnil, hnil]
    rfl
  · rw [if_neg hnil]

/-- What stands before the first line feed is read as a line, with a carriage return or without. -/
theorem readLines_lines_append {s : List Char} (h : '\n' ∉ s) (rest : List Char) (number : Nat) :
    readLines number (Text.lines (s ++ '\n' :: rest)) =
      readLines number (s :: Text.lines rest) := by
  rw [Text.lines_append h]
  exact readLines_cons_congr (readAlike_dropReturn s) rfl

/-- A line may stand for another behind whole lines and before the end of its own. -/
theorem read_line_congr {before line line' after : List Char} (hbefore : Text.Closed before)
    (h : ReadAlike line line') (hline : '\n' ∉ line) (hline' : '\n' ∉ line')
    (hafter : after = [] ∨ after.head? = some '\n') :
    read (before ++ line ++ after) = read (before ++ line' ++ after) := by
  have hrest : read (line ++ after) = read (line' ++ after) := by
    unfold read
    rcases hafter with rfl | hhead
    · rw [List.append_nil, List.append_nil, readLines_of_not_mem hline,
        readLines_of_not_mem hline']
      exact readLines_cons_congr h rfl
    · obtain ⟨rest, rfl⟩ := List.head?_eq_some_iff.1 hhead
      rw [readLines_lines_append hline, readLines_lines_append hline']
      exact readLines_cons_congr h rfl
  rw [List.append_assoc, List.append_assoc, read_append hbefore, read_append hbefore, hrest]

/-- Carriage returns before the line feeds are read as the ends of the lines. -/
theorem readLines_withReturns (s : List Char) (number : Nat) :
    readLines number (Text.lines s) = readLines number (Text.lines (withReturns s)) := by
  induction s using Text.line_induction generalizing number with
  | last s hs => rw [withReturns_of_not_mem hs]
  | line s rest hs ih =>
    have hs' : '\n' ∉ s ++ ['\r'] := by
      rw [List.mem_append, not_or]
      exact ⟨hs, by decide⟩
    rw [withReturns_append hs, readLines_lines_append hs, readLines_lines_append hs']
    exact readLines_cons_congr (readAlike_concat_return s) (ih _)

/-- A line feed at the end adds an empty line at most. -/
theorem readLines_concat_lineFeed (s : List Char) (number : Nat) :
    readLines number (Text.lines s) = readLines number (Text.lines (s ++ ['\n'])) := by
  induction s using Text.line_induction generalizing number with
  | last s hs => rw [readLines_of_not_mem hs, readLines_lines_append hs]; rfl
  | line s rest hs ih =>
    rw [List.append_assoc, List.cons_append, readLines_lines_append hs, readLines_lines_append hs]
    exact readLines_cons_congr (.of_code_eq rfl) (ih _)

/-- An edit of the layout does not change what is read. -/
theorem read_eq_of_edit {s t : List Char} (h : Edit s t) : read s = read t := by
  cases h with
  | line hbefore h hafter =>
    exact read_line_congr hbefore h.readAlike h.not_mem.1 h.not_mem.2 hafter
  | returns => exact readLines_withReturns s 1
  | lineFeed => exact readLines_concat_lineFeed s 1
  | noLineFeed => exact (readLines_concat_lineFeed t 1).symm

theorem read_eq_of_relaid {s t : List Char} (h : Relaid s t) : read s = read t := by
  induction h with
  | refl => rfl
  | tail _ hedit ih => exact ih.trans (read_eq_of_edit hedit)

/-- **Layout does not matter.** However many comments are replaced or taken away, blanks are put in
front of comments and line ends or taken from there, line feeds get a carriage return and a last
line feed comes or goes, the text that comes of it is read as the first one: the bytes are the same,
or the line, the column and the token that are malformed. -/
theorem parse_eq_of_relaid (s t : String) (h : Relaid s.toList t.toList) : parse s = parse t :=
  read_eq_of_relaid h

/-- A comment goes, a tab comes in the place of the space before it, a line feed is put at the end,
and every line feed gets a carriage return. The malformed line keeps its place. -/
theorem parse_eq_of_relaid_of_four_edits :
    Relaid "1\n  12 # a#1\n1".toList "1\r\n  12\t\r\n1\r\n".toList ∧
      parse "1\n  12 # a#1\n1" = parse "1\r\n  12\t\r\n1\r\n" ∧
      parse "1\r\n  12\t\r\n1\r\n" = .error ⟨2, 3, "12"⟩ := by
  have hfirst : Text.Closed "1\n".toList := Text.closed_iff.2 (by decide +kernel)
  have hhash : '#' ∉ "  12".toList ∧ '#' ∉ "  12 ".toList := by decide +kernel
  have hbreak : '\n' ∉ "  12".toList ∧ '\n' ∉ "  12 ".toList := by decide +kernel
  have hspace : Blanks " ".toList := .singleton (by decide) (by decide)
  have htabulator : Blanks "\t".toList := .singleton (by decide) (by decide)
  have hcomment : Edit ("1\n".toList ++ ("  12 ".toList ++ "# a#1".toList) ++ "\n1".toList)
      ("1\n".toList ++ ("  12 ".toList ++ []) ++ "\n1".toList) :=
    .line hfirst (.comment hhash.2 hbreak.2 (.some (by decide)) .none) (.inr rfl)
  have htab : Edit ("1\n".toList ++ ("  12".toList ++ " ".toList ++ []) ++ "\n1".toList)
      ("1\n".toList ++ ("  12".toList ++ "\t".toList ++ []) ++ "\n1".toList) :=
    .line hfirst (.blanks hhash.1 hbreak.1 hspace htabulator .none) (.inr rfl)
  have hrelaid : Relaid "1\n  12 # a#1\n1".toList "1\r\n  12\t\r\n1\r\n".toList :=
    (((Relation.ReflTransGen.single hcomment).tail htab).tail (.lineFeed _)).tail (.returns _)
  exact ⟨hrelaid, parse_eq_of_relaid _ _ hrelaid, by decide +kernel⟩

end ByteMachine.Source
