import ByteMachine.Proofs.ErrorPlace
import ByteMachine.Proofs.Numeral

/-!
# What a diagnostic quotes, and where its caret stands

A diagnostic of a malformed line splits the source once more: it finds the line by its number, and
takes from its end what it thinks of as the terminator, which are all carriage returns there and not
only the one that reading drops. The two ways to take a line apart meet in the text of the source
(`IsLine`), and the token comes out of both in full, since it ends in no white space
(`exists_quoted`).

The quotation is then written behind its number and a bar, the caret below it behind a bar, and the
two have margins of their own: the number takes four places at least where the caret's line leaves
two for it, and in front of the caret stands a blank for each byte, not for each character, of the
white space in front of the token. So the caret is not where the token is, unless the one happens to
make up for the other (`caret_under_token_iff`).
-/

namespace ByteMachine.Diagnostic

/-- The text is a line of the source, given its number counted from one: it stands behind whole
lines and in front of a line feed or the end of the source, and any carriage returns at its end are
left out. -/
def IsLine (source : List Char) (number : Nat) (text : List Char) : Prop :=
  ∃ before returns after, source = before ++ text ++ returns ++ after ∧ Text.Closed before ∧
    number = before.count '\n' + 1 ∧ '\n' ∉ text ∧ text.getLast? ≠ some '\r' ∧
    (∀ c ∈ returns, c = '\r') ∧ (after = [] ∨ after.head? = some '\n')

/-- The quoted line behind its number. -/
def numbered (line : Nat) (text : List Char) : List Char :=
  Text.padStart 4 (decimal line).toList ++ " | ".toList ++ text

/-- The caret below it. -/
def marker (offset : Nat) : List Char := "  | ".toList ++ List.replicate (offset - 1) ' ' ++ ['^']

variable {source : List Char} {line offset : Nat} {token : String}

/-! ## The quoted line -/

/-- The token of a malformed line is not empty and has no white space at its ends. -/
theorem tight_of_read_eq_error (h : Source.read source = .error ⟨line, offset, token⟩) :
    token.toList ≠ [] ∧ Text.Tight token.toList := by
  obtain ⟨-, text, -, -, -, htext, -, htoken, -⟩ :=
    Source.firstMalformed_iff.1 (Source.read_eq_error_iff.1 h)
  rw [htoken]
  exact ⟨htext.1, Text.tight_trim _⟩

/-- A line found by its number is a line of the source, without the carriage returns at its end. -/
theorem isLine_of_getElem? {n : Nat} {raw : List Char} (h : (Text.lines source)[n]? = some raw) :
    IsLine source (n + 1) (Text.dropEndWhile (· == '\r') raw) := by
  obtain ⟨before, returns, after, hsource, hbefore, hcount, hreturns, hafter⟩ :=
    Text.exists_of_getElem?_lines h
  obtain ⟨dropped, hdropped, hraw⟩ := Text.exists_dropEndWhile (· == '\r') raw
  have hbreak : '\n' ∉ raw := Text.not_mem_of_mem_lines (List.mem_of_getElem? h)
  -- One carriage return may have gone with the line feed; the others go here.
  refine ⟨before, dropped ++ returns, after, ?_, hbefore, by rw [hcount], ?_, ?_, ?_, hafter⟩
  · rw [hsource]
    conv => lhs; rw [hraw]
    simp only [List.append_assoc]
  · intro hmem
    rw [hraw] at hbreak
    exact hbreak (List.mem_append_left _ hmem)
  · intro hlast
    have := Text.getLast?_dropEndWhile hlast
    cases this
  · intro c hc
    rcases List.mem_append.1 hc with hc | hc
    · exact eq_of_beq (hdropped c hc)
    · exact hreturns c hc

/-- A text that does not end in white space stands where it stood when the carriage returns at the
end of its line have gone. -/
theorem standsAt_of_dropReturns {raw text : List Char} {column : Nat}
    (h : Source.StandsAt raw column text) (hne : text ≠ []) (htight : Text.Tight text) :
    Source.StandsAt (Text.dropEndWhile (· == '\r') raw) column text := by
  obtain ⟨before, after, hraw, hblank, hcolumn⟩ := h
  obtain ⟨dropped, hdropped, hparts⟩ := Text.exists_dropEndWhile (· == '\r') raw
  have hlast : ∀ c ∈ (before ++ text).getLast?, (c == '\r') = false := by
    intro c hc
    rw [List.getLast?_append_of_ne_nil _ hne] at hc
    have hnot := htight.2 c hc
    rw [beq_eq_false_iff_ne]
    rintro rfl
    cases hnot
  -- So no carriage return of the text is among those that go.
  obtain ⟨rest, hrest⟩ := Text.prefix_of_append_eq (hparts.symm.trans hraw) hdropped hlast
  exact ⟨before, rest, hrest.symm, hblank, hcolumn⟩

/-- A malformed line is found by its number, and has the token in it at the column. -/
theorem exists_quoted (h : Source.read source = .error ⟨line, offset, token⟩) :
    ∃ text, quoted source line = some text ∧ IsLine source line text ∧
      Source.StandsAt text offset token.toList := by
  obtain ⟨hne, htight⟩ := tight_of_read_eq_error h
  obtain ⟨earlier, raw, later, hlines, -, -, rfl, -, hstands⟩ :=
    Source.firstMalformed_iff.1 (Source.read_eq_error_iff.1 h)
  have hraw : (Text.lines source)[earlier.length]? = some raw := by
    rw [hlines, List.getElem?_append_right (Nat.le_refl _), Nat.sub_self]
    rfl
  refine ⟨Text.dropEndWhile (· == '\r') raw, ?_, isLine_of_getElem? hraw,
    standsAt_of_dropReturns hstands hne htight⟩
  rw [quoted, Nat.add_sub_cancel, hraw]
  rfl

/-- Of the carriage returns at the end of a line, it does not matter which are dropped first. -/
theorem dropEndWhile_dropReturn (raw : List Char) :
    Text.dropEndWhile (· == '\r') (Text.dropReturn raw) = Text.dropEndWhile (· == '\r') raw := by
  rcases Text.dropReturn_cases raw with heq | heq
  · rw [heq]
  · conv => rhs; rw [heq]
    exact (Text.dropEndWhile_append (by simp) _).symm

/-- Behind whole lines, the line that is found is the first of the rest. -/
theorem quoted_append {before : List Char} (h : Text.Closed before) (rest : List Char) :
    quoted (before ++ rest) (before.count '\n' + 1) = quoted rest 1 := by
  rw [quoted, quoted, h.lines_append, ← h.length_lines, Nat.add_sub_cancel,
    List.getElem?_append_right (Nat.le_refl _), Nat.sub_self]

/-- A line of the source is the one that is found by its number. Behind the last line feed there is
none to be found, and nothing to quote. -/
theorem IsLine.getD_quoted {number : Nat} {text : List Char} (h : IsLine source number text) :
    (quoted source number).getD [] = text := by
  obtain ⟨before, returns, after, rfl, hbefore, rfl, hbreak, hlast, hreturns, hafter⟩ := h
  have hraw : Text.dropEndWhile (· == '\r') (text ++ returns) = text := by
    rw [Text.dropEndWhile_append (by simpa using hreturns), Text.dropEndWhile_of_getLast]
    intro c hc
    rw [beq_eq_false_iff_ne]
    rintro rfl
    exact hlast hc
  have hline : '\n' ∉ text ++ returns := by
    rw [List.mem_append, not_or]
    exact ⟨hbreak, fun hmem => absurd (hreturns _ hmem) (by decide)⟩
  rw [List.append_assoc, List.append_assoc, quoted_append hbefore, ← List.append_assoc, quoted]
  rcases hafter with rfl | hafter
  · rw [List.append_nil, Text.lines_of_not_mem hline]
    by_cases hnil : text ++ returns = []
    · rw [if_pos hnil]
      exact (List.append_eq_nil_iff.1 hnil).1.symm
    · rw [if_neg hnil]
      exact hraw
  · obtain ⟨rest, rfl⟩ := List.head?_eq_some_iff.1 hafter
    rw [Text.lines_append hline]
    exact (dropEndWhile_dropReturn _).trans hraw

/-! ## The lines of a report -/

theorem quote_eq (text : List Char) (line offset : Nat) :
    quote text line offset = "  |".toList ++ ['\n'] ++ numbered line text ++ ['\n'] ++
      marker offset ++ ['\n'] := by
  unfold quote numbered marker
  simp only [List.append_assoc]
  rfl

/-- A report that quotes a line has five lines, if the message and the file's name are each in
one. -/
theorem render_of_quoted {source file message : String} {text : List Char}
    (h : quoted source.toList line = some text) :
    render file source line offset message = String.join ([
      "error: " ++ message,
      " --> " ++ file ++ ":" ++ toString line ++ ":" ++ toString offset,
      "  |",
      String.ofList (numbered line text),
      String.ofList (marker offset)].map (· ++ "\n")) := by
  have hplace : "\n --> " = "\n" ++ " --> " := by decide
  have hbreak : String.ofList ['\n'] = "\n" := by decide
  unfold render
  rw [h, hplace, decimal_eq_toString, decimal_eq_toString]
  simp only [quote_eq, hbreak, List.map_cons, List.map_nil, String.join_cons, String.join_nil,
    String.append_empty, String.append_assoc, String.ofList_append, String.ofList_toList]

theorem ofList_numbered (line : Nat) (text : List Char) :
    String.ofList (numbered line text) =
      String.ofList (List.replicate (4 - (toString line).length) ' ') ++ toString line ++ " | " ++
        String.ofList text := by
  unfold numbered Text.padStart
  rw [decimal_eq_toString, String.length_toList, String.ofList_append, String.ofList_append,
    String.ofList_append, String.ofList_toList, String.ofList_toList]

theorem ofList_marker (offset : Nat) :
    String.ofList (marker offset) = "  | " ++ String.ofList (List.replicate (offset - 1) ' ') ++ "^" := by
  unfold marker
  rw [String.ofList_append, String.ofList_append, String.ofList_toList]

/-- The report at the place of a malformed line, written out with the line of the source that has its
number. -/
theorem render_of_isLine {source : String} {text : List Char}
    (h : Source.read source.toList = .error ⟨line, offset, token⟩)
    (hline : IsLine source.toList line text) (file message : String) :
    render file source line offset message = String.join ([
      "error: " ++ message,
      " --> " ++ file ++ ":" ++ toString line ++ ":" ++ toString offset,
      "  |",
      String.ofList (List.replicate (4 - (toString line).length) ' ') ++ toString line ++ " | " ++
        String.ofList text,
      "  | " ++ String.ofList (List.replicate (offset - 1) ' ') ++ "^"].map (· ++ "\n")) := by
  obtain ⟨found, hquoted, -, -⟩ := exists_quoted h
  have hfound := hline.getD_quoted
  rw [hquoted] at hfound
  obtain rfl : found = text := hfound
  rw [render_of_quoted hquoted, ofList_numbered, ofList_marker]

/-- **A diagnostic quotes the malformed line.** Reported at the place of a malformed line, a message
is followed by the place, and by the line of the source that has this number: its text, without
terminator and carriage returns, behind its number set to four places, and below it the caret, behind
as many blanks as the column says. In the text stands the token in full, at the column. -/
theorem render_quotes_line (file message source : String) (line offset : Nat) (token : String)
    (h : Source.parse source = .error ⟨line, offset, token⟩) :
    ∃ text, IsLine source.toList line text ∧ Source.StandsAt text offset token.toList ∧
      render file source line offset message = String.join ([
        "error: " ++ message,
        " --> " ++ file ++ ":" ++ toString line ++ ":" ++ toString offset,
        "  |",
        String.ofList (List.replicate (4 - (toString line).length) ' ') ++ toString line ++ " | " ++
          String.ofList text,
        "  | " ++ String.ofList (List.replicate (offset - 1) ' ') ++ "^"].map (· ++ "\n")) := by
  obtain ⟨text, -, hline, hstands⟩ := exists_quoted h
  exact ⟨text, hline, hstands, render_of_isLine h hline file message⟩

/-- The line ends in two carriage returns before its line feed, and its token begins behind a blank
of three bytes. -/
theorem render_quotes_line_of_wide_blank :
    Source.parse "1\r\n\u3000x1\r\r\n" = .error ⟨2, 4, "x1"⟩ ∧
      ∃ text, IsLine "1\r\n\u3000x1\r\r\n".toList 2 text ∧ Source.StandsAt text 4 "x1".toList ∧
        render "p" "1\r\n\u3000x1\r\r\n" 2 4 "bad" =
          String.join (["error: bad", " --> p:2:4", "  |", "   2 | " ++ String.ofList text,
            "  |    ^"].map (· ++ "\n")) := by
  have hparse : Source.parse "1\r\n\u3000x1\r\r\n" = .error ⟨2, 4, "x1"⟩ := by decide +kernel
  exact ⟨hparse, render_quotes_line "p" "bad" _ 2 4 "x1" hparse⟩

/-! ## The columns of the quoted token and of the caret -/

/-- The last line of a report, in which the caret is. -/
def caretLine (report : String) : List Char := (Text.lines report.toList).reverse[0]?.getD []

/-- The line above it, which quotes the source. -/
def quotedLine (report : String) : List Char := (Text.lines report.toList).reverse[1]?.getD []

/-- The column of the caret: the number of characters in front of it. -/
def caretColumn (report : String) : Nat := (caretLine report).idxOf '^'

/-- The column of the quoted token: it stands behind the first bar and a space, and then behind all
blanks there are. -/
def tokenColumn (report : String) : Nat :=
  let margin := (quotedLine report).idxOf '|' + 2
  margin + (((quotedLine report).drop margin).takeWhile Text.isBlank).length

theorem mem_padStart {c : Char} {width : Nat} {s : List Char} (h : c ∈ Text.padStart width s) :
    c = ' ' ∨ c ∈ s := by
  unfold Text.padStart at h
  rcases List.mem_append.1 h with h | h
  · exact .inl (List.eq_of_mem_replicate h)
  · exact .inr h

theorem length_padStart (width : Nat) (s : List Char) :
    (Text.padStart width s).length = max width s.length := by
  unfold Text.padStart
  rw [List.length_append, List.length_replicate]
  omega

/-- In front of the quoted text there is no bar but the margin's, and no line feed. -/
theorem not_mem_number {c : Char} (hc : c.isAlphanum = false) (hblank : c ≠ ' ') (line : Nat) :
    c ∉ Text.padStart 4 (decimal line).toList := by
  intro hmem
  rcases mem_padStart hmem with h | h
  · exact hblank h
  · exact Numeral.not_mem_write Numeral.readable_decimal hc line h

theorem lineFeed_not_mem_numbered {text : List Char} (h : '\n' ∉ text) (line : Nat) :
    '\n' ∉ numbered line text := by
  unfold numbered
  rw [List.mem_append, List.mem_append, not_or, not_or]
  exact ⟨⟨not_mem_number (by decide) (by decide) line, by decide⟩, h⟩

theorem lineFeed_not_mem_marker (offset : Nat) : '\n' ∉ marker offset := by
  unfold marker
  rw [List.mem_append, List.mem_append, List.mem_replicate, not_or, not_or]
  exact ⟨⟨by decide, fun h => absurd h.2 (by decide)⟩, by decide⟩

/-- The last two lines of a report are the quoted line and the line of the caret. -/
theorem lines_render {source file message : String} {text : List Char}
    (hquoted : quoted source.toList line = some text) (hbreak : '\n' ∉ text)
    (hlast : text.getLast? ≠ some '\r') (hne : text ≠ []) :
    ∃ earlier, Text.lines (render file source line offset message).toList =
      earlier ++ [numbered line text, marker offset] := by
  -- Neither of them ends in a carriage return, which splitting would drop.
  have hnumbered : Text.dropReturn (numbered line text) = numbered line text := by
    refine if_neg ?_
    unfold numbered
    rwa [List.getLast?_append_of_ne_nil _ hne]
  have hmarker : Text.dropReturn (marker offset) = marker offset := by
    refine if_neg ?_
    unfold marker
    rw [List.getLast?_append_of_ne_nil _ (List.cons_ne_nil _ _)]
    decide
  obtain ⟨above, hreport⟩ : ∃ above : List String, render file source line offset message =
      String.join (above.map (· ++ "\n")) ++
        String.join ([String.ofList (numbered line text), String.ofList (marker offset)].map
          (· ++ "\n")) := by
    refine ⟨["error: " ++ message,
      " --> " ++ file ++ ":" ++ toString line ++ ":" ++ toString offset, "  |"], ?_⟩
    rw [render_of_quoted hquoted, ← String.join_append, ← List.map_append]
    rfl
  have hend : (String.join ([String.ofList (numbered line text), String.ofList (marker offset)].map
      (· ++ "\n"))).toList = numbered line text ++ '\n' :: (marker offset ++ ['\n']) := by
    simp [String.join_cons]
  refine ⟨Text.lines (String.join (above.map (· ++ "\n"))).toList, ?_⟩
  rw [hreport, String.toList_append, hend, (Text.closed_join above).lines_append,
    Text.lines_append (lineFeed_not_mem_numbered hbreak line),
    Text.lines_append (lineFeed_not_mem_marker offset), hnumbered, hmarker]
  rfl

theorem caretColumn_eq {report : String} {earlier : List (List Char)} {quotation : List Char}
    (h : Text.lines report.toList = earlier ++ [quotation, marker offset]) (hoffset : 0 < offset) :
    caretColumn report = offset + 3 := by
  have hline : caretLine report = marker offset := by
    rw [caretLine, h, List.reverse_append]
    rfl
  have hbefore : '^' ∉ "  | ".toList ++ List.replicate (offset - 1) ' ' := by
    rw [List.mem_append, List.mem_replicate, not_or]
    exact ⟨by decide, fun h => absurd h.2 (by decide)⟩
  rw [caretColumn, hline]
  unfold marker
  rw [List.idxOf_append_of_notMem hbefore, List.idxOf_cons_self, List.length_append,
    List.length_replicate]
  show 4 + (offset - 1) = offset + 3
  omega

theorem quotedLine_eq {report : String} {earlier : List (List Char)} {quotation below : List Char}
    (h : Text.lines report.toList = earlier ++ [quotation, below]) :
    quotedLine report = quotation := by
  rw [quotedLine, h, List.reverse_append]
  rfl

/-- The number's width, a space, the bar and a space. -/
theorem idxOf_bar_numbered (line : Nat) (text : List Char) :
    (numbered line text).idxOf '|' = (Text.padStart 4 (decimal line).toList).length + 1 := by
  have hbefore : '|' ∉ Text.padStart 4 (decimal line).toList :=
    not_mem_number (by decide) (by decide) line
  have hbar : " | ".toList.idxOf '|' = 1 := by decide
  unfold numbered
  rw [List.append_assoc, List.idxOf_append_of_notMem hbefore, List.idxOf_append_of_mem (by decide),
    hbar]

theorem drop_numbered (line : Nat) (text : List Char) :
    (numbered line text).drop ((Text.padStart 4 (decimal line).toList).length + 3) = text := by
  unfold numbered
  exact List.drop_left' (by rw [List.length_append]; rfl)

theorem tokenColumn_eq {report : String} {text before after : List Char}
    (h : quotedLine report = numbered line text) (htext : text = before ++ token.toList ++ after)
    (hbefore : Text.Blank before) (hne : token.toList ≠ []) (htight : Text.Tight token.toList) :
    tokenColumn report = max 4 (toString line).length + 3 + before.length := by
  have hwidth : (Text.padStart 4 (decimal line).toList).length = max 4 (toString line).length := by
    rw [length_padStart, decimal_eq_toString, String.length_toList]
  have hblanks : text.takeWhile Text.isBlank = before := by
    rw [htext]
    exact Text.takeWhile_isBlank_eq hbefore htight hne after
  rw [tokenColumn, h, idxOf_bar_numbered, drop_numbered, hblanks, hwidth]

/-- **The caret stands under the token only by a coincidence.** In the report of a malformed line, the
quoted token stands behind the number of the line, a bar and the white space in front of the token,
one column for each character. The caret stands behind a narrower margin, and behind a blank for each
byte of that white space. So it is under the token exactly if the white space takes as many bytes more
than characters as the number takes places more than one. With spaces and tabs only it never is, but
stands too far to the left. -/
theorem caret_under_token_iff (file message source : String) (line offset : Nat) (token : String)
    (h : Source.parse source = .error ⟨line, offset, token⟩) :
    ∃ before after : List Char, Text.Blank before ∧
      offset = (String.ofList before).utf8ByteSize + 1 ∧
      quotedLine (render file source line offset message) =
        Text.padStart 4 (toString line).toList ++ " | ".toList ++ before ++ token.toList ++ after ∧
      tokenColumn (render file source line offset message) =
        max 4 (toString line).length + 3 + before.length ∧
      caretColumn (render file source line offset message) = offset + 3 ∧
      (caretColumn (render file source line offset message) =
          tokenColumn (render file source line offset message) ↔
        (String.ofList before).utf8ByteSize + 1 =
          before.length + max 4 (toString line).length) := by
  obtain ⟨hne, htight⟩ := tight_of_read_eq_error h
  obtain ⟨text, hquoted, hline, before, after, htext, hbefore, hoffset⟩ := exists_quoted h
  obtain ⟨-, -, -, -, -, -, hbreak, hlast, -, -⟩ := hline
  have hnil : text ≠ [] := by
    rw [htext]
    exact List.append_ne_nil_of_left_ne_nil (List.append_ne_nil_of_right_ne_nil _ hne) _
  obtain ⟨earlier, hlines⟩ : ∃ earlier,
      Text.lines (render file source line offset message).toList =
        earlier ++ [numbered line text, marker offset] := lines_render hquoted hbreak hlast hnil
  have hcaret := caretColumn_eq hlines (by omega)
  have hquotation := quotedLine_eq hlines
  have htoken := tokenColumn_eq hquotation htext hbefore hne htight
  refine ⟨before, after, hbefore, hoffset, ?_, htoken, hcaret, ?_⟩
  · rw [hquotation, htext]
    unfold numbered
    rw [decimal_eq_toString]
    simp only [List.append_assoc]
  · rw [hcaret, htoken]
    omega

/-- An ideographic space and a no-break space take five bytes, which makes up for the margins. -/
theorem caret_under_token_iff_of_wide_blanks :
    Source.parse "\u3000\u00a0xyz" = .error ⟨1, 6, "xyz"⟩ ∧
      tokenColumn (render "prog.ls8" "\u3000\u00a0xyz" 1 6 "invalid number 'xyz'") = 9 ∧
      caretColumn (render "prog.ls8" "\u3000\u00a0xyz" 1 6 "invalid number 'xyz'") =
        tokenColumn (render "prog.ls8" "\u3000\u00a0xyz" 1 6 "invalid number 'xyz'") := by
  have hparse : Source.parse "\u3000\u00a0xyz" = .error ⟨1, 6, "xyz"⟩ := by decide +kernel
  have hcolumn : tokenColumn (render "prog.ls8" "\u3000\u00a0xyz" 1 6 "invalid number 'xyz'") = 9 := by
    decide +kernel
  obtain ⟨before, after, -, hoffset, -, htoken, -, hcaret⟩ :=
    caret_under_token_iff "prog.ls8" "invalid number 'xyz'" _ 1 6 "xyz" hparse
  have hnumber : (toString 1).length = 1 := by decide +kernel
  rw [hnumber] at htoken hcaret
  exact ⟨hparse, hcolumn, hcaret.2 (by omega)⟩

/-- Two spaces take two bytes, and the caret stands three columns to the left of the token. -/
theorem caret_left_of_token :
    Source.parse "1\n  xyz\n" = .error ⟨2, 3, "xyz"⟩ ∧
      caretColumn (render "prog.ls8" "1\n  xyz\n" 2 3 "invalid number 'xyz'") = 6 ∧
      tokenColumn (render "prog.ls8" "1\n  xyz\n" 2 3 "invalid number 'xyz'") = 9 := by
  decide +kernel

end ByteMachine.Diagnostic
