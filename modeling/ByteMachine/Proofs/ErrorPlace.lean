import ByteMachine.Proofs.Source

/-!
# Where a source is malformed

Reading gives the place of a malformed line as two numbers. Here they are tied to the text: the line
is found by counting lines, and in the line the token stands at the column, counted in bytes of
UTF-8, with nothing but white space before it (`StandsAt`).

The reader finds the column by a detour, from the blanks at the start of the part of the line that
is no comment. It is the only column at which the token stands, however many bytes the blanks take
and whatever follows (`standsAt_token_iff`): a token begins with no blank, so the blanks before it
are all the blanks at the start, and it holds no `#`, so they and it come before the comment.
-/

namespace ByteMachine.Source

/-- The text stands in the line at the column, and nothing but white space stands before it. Columns
are counted from one, in bytes of UTF-8. -/
def StandsAt (line : List Char) (column : Nat) (text : List Char) : Prop :=
  ∃ before after, line = before ++ text ++ after ∧ Text.Blank before ∧
    column = (String.ofList before).utf8ByteSize + 1

/-- Where the token stands behind blanks only, the code of the line begins with these blanks. -/
theorem offset_eq {line before after : List Char} (hline : line = before ++ token line ++ after)
    (hbefore : Blanks before) (htoken : token line ≠ []) :
    offset line = (String.ofList before).utf8ByteSize + 1 := by
  have hhash : '#' ∉ before ++ token line := by
    rw [List.mem_append, not_or]
    exact ⟨hbefore.hash_not_mem, hash_not_mem_token line⟩
  have hcode : code line = before ++ token line ++ code after := by
    conv => lhs; rw [hline]
    exact code_append_of_not_mem hhash after
  have htight : Text.Tight (token line) := Text.tight_trim (code line)
  rw [offset, hcode, Text.takeWhile_isBlank_eq hbefore.1 htight htoken,
    Text.byteLength_eq_utf8ByteSize]

/-- The token of a line stands at its column and at no other. -/
theorem standsAt_token_iff {line : List Char} {column : Nat} (hline : '\n' ∉ line)
    (htoken : token line ≠ []) : StandsAt line column (token line) ↔ column = offset line := by
  constructor
  · rintro ⟨before, after, hparts, hbefore, rfl⟩
    have hbreak : '\n' ∉ before := by
      intro hmem
      refine hline ?_
      rw [hparts, List.append_assoc]
      exact List.mem_append_left _ hmem
    exact (offset_eq hparts ⟨hbefore, hbreak⟩ htoken).symm
  · rintro rfl
    obtain ⟨before, after, comment, -, hbefore, -, -, -, hparts⟩ := exists_token hline
    rw [List.append_assoc] at hparts
    exact ⟨before, after ++ comment, hparts, hbefore.1, offset_eq hparts hbefore htoken⟩

/-- A token has no line feed in it, since its line has none. -/
theorem lineFeed_not_mem_token {line : List Char} (h : '\n' ∉ line) : '\n' ∉ token line := by
  obtain ⟨before, after, comment, -, -, -, -, -, hparts⟩ := exists_token h
  intro hmem
  refine h ?_
  rw [hparts, List.append_assoc, List.append_assoc]
  exact List.mem_append_right _ (List.mem_append_left _ hmem)

/-- A line that reading stops at, described by where things stand in it. -/
theorem firstMalformed_iff {source : List Char} {line column : Nat} {found : String} :
    FirstMalformed source ⟨line, column, found⟩ ↔
      ∃ earlier text later, Text.lines source = earlier ++ text :: later ∧
        (∀ skipped ∈ earlier, ¬ IsMalformed skipped) ∧ IsMalformed text ∧
        line = earlier.length + 1 ∧ found.toList = token text ∧
        StandsAt text column found.toList := by
  constructor
  · rintro ⟨earlier, text, later, hlines, hearlier, htext, hplace⟩
    obtain ⟨rfl, rfl, rfl⟩ := Malformed.mk.inj hplace
    refine ⟨earlier, text, later, hlines, hearlier, htext, rfl, String.toList_ofList, ?_⟩
    rw [String.toList_ofList]
    exact (standsAt_token_iff (Text.not_mem_of_lines_eq hlines) htext.1).2 rfl
  · rintro ⟨earlier, text, later, hlines, hearlier, htext, rfl, hfound, hstands⟩
    rw [hfound] at hstands
    have hcolumn := (standsAt_token_iff (Text.not_mem_of_lines_eq hlines) htext.1).1 hstands
    refine ⟨earlier, text, later, hlines, hearlier, htext, ?_⟩
    rw [hcolumn, ← hfound, String.ofList_toList]

/-- **The place of an error is exact.** Reading answers with a line, a column and a token exactly if
the line is the first that is neither skipped nor a literal, counting all lines, the token is what
the line holds, and it stands there at the column. Such a token is not empty, has neither a number
sign nor a line feed in it, and has no white space at its ends. -/
theorem parse_eq_error_iff (source : String) (line column : Nat) (found : String) :
    (parse source = .error ⟨line, column, found⟩ ↔
      ∃ earlier text later, Text.lines source.toList = earlier ++ text :: later ∧
        (∀ skipped ∈ earlier, ¬ IsMalformed skipped) ∧ IsMalformed text ∧
        line = earlier.length + 1 ∧ found.toList = token text ∧
        StandsAt text column found.toList) ∧
    (parse source = .error ⟨line, column, found⟩ →
      found ≠ "" ∧ '#' ∉ found.toList ∧ '\n' ∉ found.toList ∧ Text.Tight found.toList) := by
  have hparse : parse source = .error ⟨line, column, found⟩ ↔
      FirstMalformed source.toList ⟨line, column, found⟩ := read_eq_error_iff
  rw [hparse, firstMalformed_iff]
  refine ⟨Iff.rfl, ?_⟩
  rintro ⟨earlier, text, later, hlines, -, htext, -, hfound, -⟩
  have hbreak := lineFeed_not_mem_token (Text.not_mem_of_lines_eq hlines)
  rw [hfound]
  refine ⟨?_, hash_not_mem_token text, hbreak, Text.tight_trim (code text)⟩
  rintro rfl
  exact htext.1 hfound.symm

/-- The second line is skipped and the third begins with an ideographic space and a tab, which take
four bytes. -/
theorem parse_eq_error_iff_of_wide_blank :
    parse "1\r\n# 2\n\u3000\t1\r2 # 3" = .error ⟨3, 5, "1\r2"⟩ ∧
      ∃ earlier text later,
        Text.lines "1\r\n# 2\n\u3000\t1\r2 # 3".toList = earlier ++ text :: later ∧
        (∀ skipped ∈ earlier, ¬ IsMalformed skipped) ∧ IsMalformed text ∧
        earlier.length = 2 ∧ StandsAt text 5 "1\r2".toList := by
  have hparse : parse "1\r\n# 2\n\u3000\t1\r2 # 3" = .error ⟨3, 5, "1\r2"⟩ := by decide +kernel
  obtain ⟨earlier, text, later, hlines, hearlier, htext, hline, -, hstands⟩ :=
    (parse_eq_error_iff _ _ _ _).1.1 hparse
  exact ⟨hparse, earlier, text, later, hlines, hearlier, htext, (Nat.succ.inj hline).symm, hstands⟩

end ByteMachine.Source
