import ByteMachine.Text
import Mathlib.Data.List.DropRight
import Mathlib.Data.List.Infix

/-!
# Texts, taken apart

Trimming and splitting look at one character after the other. Proofs about sources look at parts.

A text is the blanks before, its trimmed text and the blanks behind (`exists_trim`), and the trimmed
text is the only part that can stand there without a blank at either end (`trim_eq_of_tight`). So
neither the trimmed text nor the blanks in front of it depend on blanks behind (`trim_append`,
`takeWhile_isBlank_append`).

A text is a piece without a line feed, or such a piece, a line feed and a text (`line_induction`),
and `lines` has an equation for each of the two (`lines_of_not_mem`, `lines_append`). Two texts can be
split one after the other only where the first ends with a line. `Closed` says so of a text, and behind
such a text the lines of the next begin (`Closed.lines_append`). In front of each line of a text there
are whole lines, as many as its number says (`exists_of_getElem?_lines`).

A text holds another somewhere exactly if it is an infix of it (`contains_iff`). A replacement goes on
behind an occurrence with nothing of it left over (`replace_append`), and takes over a character with
which no occurrence begins (`replace_cons`). `Replaced` says what it is to replace several texts at
once: each occurrence of any of them by what is put in its place, and every other character by itself.
-/

namespace ByteMachine.Text

/-! ## Trimming -/

/-- Every character of the text is white space. -/
def Blank (s : List Char) : Prop := ∀ c ∈ s, isBlank c = true

/-- The text neither begins nor ends with white space. -/
def Tight (s : List Char) : Prop :=
  (∀ c ∈ s.head?, isBlank c = false) ∧ ∀ c ∈ s.getLast?, isBlank c = false

theorem tight_nil : Tight [] := by
  constructor
  · intro c hc
    cases hc
  · intro c hc
    cases hc

/-- A digit is no white space. -/
theorem isBlank_of_isDigit {c : Char} (h : c.isDigit = true) : isBlank c = false := by
  have hrange : 48 ≤ c.toNat ∧ c.toNat ≤ 57 := by
    rw [Char.isDigit, Bool.and_eq_true, decide_eq_true_iff, decide_eq_true_iff] at h
    exact h
  simp only [isBlank, blankRanges, List.any_cons, List.any_nil, Bool.or_false,
    Bool.or_eq_false_iff, Bool.and_eq_false_iff, decide_eq_false_iff_not]
  omega

/-- The scan from the left finds the same end as a scan from the right. -/
theorem dropEndWhile_eq_rdropWhile (p : Char → Bool) (s : List Char) :
    dropEndWhile p s = s.rdropWhile p := by
  induction s with
  | nil => rfl
  | cons c s ih =>
    rw [dropEndWhile, ih, List.rdropWhile, List.rdropWhile, List.reverse_cons, List.dropWhile_append]
    cases h : List.dropWhile p s.reverse with
    | nil =>
      cases hc : p c <;> simp [hc]
    | cons d rest =>
      cases hr : (d :: rest).reverse with
      | nil => simp at hr
      | cons d' rest' =>
        simp only [List.isEmpty_cons, Bool.false_eq_true, if_false, List.reverse_append, hr]
        rfl

/-- Dropping an end takes characters in `p` off the text. -/
theorem exists_dropEndWhile (p : Char → Bool) (s : List Char) :
    ∃ dropped, (∀ c ∈ dropped, p c = true) ∧ s = dropEndWhile p s ++ dropped := by
  refine ⟨s.rtakeWhile p, fun c hc => List.mem_rtakeWhile_imp hc, ?_⟩
  rw [dropEndWhile_eq_rdropWhile, List.rdropWhile_append_rtakeWhile]

/-- Dropping an end takes off all there are. -/
theorem getLast?_dropEndWhile {p : Char → Bool} {s : List Char} {c : Char}
    (hc : c ∈ (dropEndWhile p s).getLast?) : p c = false := by
  rw [dropEndWhile_eq_rdropWhile] at hc
  have hne : s.rdropWhile p ≠ [] := by
    intro hnil
    rw [hnil] at hc
    cases hc
  have hlast := List.rdropWhile_last_not p s hne
  rw [List.getLast?_eq_some_getLast hne] at hc
  cases hc
  exact Bool.eq_false_iff.2 hlast

/-- What begins a text and does not end in `p` is kept when the characters in `p` at the end of the
text go. -/
theorem prefix_of_append_eq {p : Char → Bool} {s dropped t rest : List Char}
    (h : s ++ dropped = t ++ rest) (hdropped : ∀ c ∈ dropped, p c = true)
    (ht : ∀ c ∈ t.getLast?, p c = false) : t <+: s := by
  rcases List.append_eq_append_iff.1 h with ⟨overlap, rfl, rfl⟩ | ⟨kept, rfl, -⟩
  · rcases List.eq_nil_or_concat' overlap with rfl | ⟨overlap, c, rfl⟩
    · exact ⟨[], by rw [List.append_nil, List.append_nil]⟩
    · have hlast : c ∈ (s ++ (overlap ++ [c])).getLast? := by simp
      have hmem : c ∈ overlap ++ [c] ++ rest := by simp
      have := ht c hlast
      rw [hdropped c hmem] at this
      cases this
  · exact List.prefix_append t kept

/-- Characters in `p` behind a text are dropped with its end. -/
theorem dropEndWhile_append {p : Char → Bool} {after : List Char} (h : ∀ c ∈ after, p c = true)
    (s : List Char) : dropEndWhile p (s ++ after) = dropEndWhile p s := by
  rw [dropEndWhile_eq_rdropWhile, dropEndWhile_eq_rdropWhile]
  induction after using List.reverseRecOn with
  | nil => rw [List.append_nil]
  | append_singleton after c ih =>
    have hc : p c = true := h c (List.mem_append_right _ (List.mem_singleton_self c))
    rw [← List.append_assoc, List.rdropWhile_concat_pos _ _ _ hc]
    exact ih fun d hd => h d (List.mem_append_left _ hd)

/-- A text that does not end in `p` keeps its end. -/
theorem dropEndWhile_of_getLast {p : Char → Bool} {s : List Char}
    (h : ∀ c ∈ s.getLast?, p c = false) : dropEndWhile p s = s := by
  rw [dropEndWhile_eq_rdropWhile, List.rdropWhile_eq_self_iff]
  intro hne
  rw [h _ (List.getLast?_eq_some_getLast hne)]
  decide

/-- Blanks behind a text are trimmed off. -/
theorem trimEnd_append {after : List Char} (h : Blank after) (s : List Char) :
    trimEnd (s ++ after) = trimEnd s := dropEndWhile_append h s

/-- A text that begins with no blank keeps its beginning. -/
theorem trimStart_of_head {s : List Char} (h : ∀ c ∈ s.head?, isBlank c = false) :
    trimStart s = s := by
  cases s with
  | nil => rfl
  | cons c s =>
    have hc := h c rfl
    exact List.dropWhile_cons_of_neg (by rw [hc]; decide)

theorem trimEnd_of_blank {s : List Char} (h : Blank s) : trimEnd s = [] := by
  have := trimEnd_append h []
  rwa [List.nil_append] at this

/-- Whatever blanks stand around a text without a blank at either end, trimming finds the text. -/
theorem trim_eq_of_tight {before s after : List Char} (hbefore : Blank before) (hs : Tight s)
    (hafter : Blank after) : trim (before ++ s ++ after) = s := by
  have hstart : trimStart (before ++ (s ++ after)) = trimStart (s ++ after) :=
    List.dropWhile_append_of_pos hbefore
  unfold trim
  rw [List.append_assoc, hstart]
  by_cases hne : s = []
  · -- With no text in between, the blanks behind are at the start as well.
    have hrest : Blank (trimStart after) := fun c hc =>
      hafter c ((List.dropWhile_suffix _).subset hc)
    rw [hne, List.nil_append, trimEnd_of_blank hrest]
  · have hhead : ∀ c ∈ (s ++ after).head?, isBlank c = false := by
      rw [List.head?_append_of_ne_nil s hne]
      exact hs.1
    rw [trimStart_of_head hhead, trimEnd_append hafter, trimEnd, dropEndWhile_of_getLast hs.2]

/-- A text is its trimmed text with blanks around it, those in front being all the blanks at its
start. -/
theorem exists_trim (s : List Char) :
    ∃ after, Blank after ∧ s = s.takeWhile isBlank ++ trim s ++ after := by
  obtain ⟨after, hafter, hparts⟩ := exists_dropEndWhile isBlank (trimStart s)
  refine ⟨after, hafter, ?_⟩
  rw [List.append_assoc]
  exact List.takeWhile_append_dropWhile.symm.trans (congrArg _ hparts)

/-- Trimming leaves no blank at either end. -/
theorem tight_trim (s : List Char) : Tight (trim s) := by
  constructor
  · intro c hc
    -- What is left begins as the text does without the blanks at its start.
    obtain ⟨rest, -, hparts⟩ := exists_dropEndWhile isBlank (trimStart s)
    have hhead : (s.dropWhile isBlank).head? = some c := by
      show (trimStart s).head? = some c
      rw [hparts, List.head?_append]
      show (trim s).head?.or rest.head? = some c
      rw [hc]
      rfl
    have := List.head?_dropWhile_not isBlank s
    rw [hhead] at this
    simpa using this
  · intro c hc
    exact getLast?_dropEndWhile hc

theorem blank_takeWhile (s : List Char) : Blank (s.takeWhile isBlank) :=
  fun _ hc => List.mem_takeWhile_imp hc

/-- The blanks in front of a text that begins with none are all the blanks at the start. -/
theorem takeWhile_isBlank_eq {before t : List Char} (hbefore : Blank before) (ht : Tight t)
    (hne : t ≠ []) (after : List Char) :
    (before ++ t ++ after).takeWhile isBlank = before := by
  obtain ⟨c, rest, rfl⟩ := List.exists_cons_of_ne_nil hne
  have hc : isBlank c = false := ht.1 c rfl
  have hstop : (c :: (rest ++ after)).takeWhile isBlank = [] :=
    List.takeWhile_cons_of_neg (by rw [hc]; decide)
  rw [List.append_assoc, List.takeWhile_append_of_pos hbefore, List.cons_append, hstop,
    List.append_nil]

/-- Blanks behind a text do not change what trimming leaves. -/
theorem trim_append {after : List Char} (h : Blank after) (s : List Char) :
    trim (s ++ after) = trim s := by
  obtain ⟨behind, hbehind, hs⟩ := exists_trim s
  have hall : Blank (behind ++ after) := fun c hc =>
    (List.mem_append.1 hc).elim (hbehind c) (h c)
  conv => lhs; rw [hs, List.append_assoc]
  exact trim_eq_of_tight (blank_takeWhile s) (tight_trim s) hall

/-- If trimming leaves anything, the blanks in front of it do not depend on what follows. -/
theorem takeWhile_isBlank_append {s : List Char} (hs : trim s ≠ []) (after : List Char) :
    (s ++ after).takeWhile isBlank = s.takeWhile isBlank := by
  obtain ⟨behind, -, hparts⟩ := exists_trim s
  conv => lhs; rw [hparts, List.append_assoc]
  exact takeWhile_isBlank_eq (blank_takeWhile s) (tight_trim s) hs _

/-- The measure of columns is the size of a text. -/
theorem byteLength_eq_utf8ByteSize (s : List Char) :
    byteLength s = (String.ofList s).utf8ByteSize := by
  induction s with
  | nil => rfl
  | cons c rest ih =>
    have hsplit : String.ofList (c :: rest) = String.singleton c ++ String.ofList rest := by
      rw [String.singleton_eq_ofList, ← String.ofList_append]
      rfl
    rw [byteLength, ih, hsplit, String.utf8ByteSize_append, String.utf8ByteSize_singleton]

/-! ## Lines, one at a time -/

/-- A piece without a line feed has nothing to split. -/
theorem split_of_not_mem {s : List Char} (h : '\n' ∉ s) : split s = ⟨[], s⟩ := by
  induction s with
  | nil => rfl
  | cons c s ih =>
    rw [List.mem_cons, not_or] at h
    obtain ⟨hc, hs⟩ := h
    rw [split, ih hs]
    exact if_neg (Ne.symm hc)

/-- A piece and the line feed that ends it come off the front. -/
theorem split_append {s : List Char} (h : '\n' ∉ s) (rest : List Char) :
    split (s ++ '\n' :: rest) = ⟨s :: (split rest).ended, (split rest).rest⟩ := by
  induction s with
  | nil => rfl
  | cons c s ih =>
    rw [List.mem_cons, not_or] at h
    obtain ⟨hc, hs⟩ := h
    rw [List.cons_append, split, ih hs]
    exact if_neg (Ne.symm hc)

/-- A text without a line feed is one line, unless it is empty. -/
theorem lines_of_not_mem {s : List Char} (h : '\n' ∉ s) :
    lines s = if s = [] then [] else [s] := by
  simp only [lines, split_of_not_mem h, List.map_nil, List.nil_append]

/-- The first line of a text is what stands before its first line feed, without one carriage return
at the end. -/
theorem lines_append {s : List Char} (h : '\n' ∉ s) (rest : List Char) :
    lines (s ++ '\n' :: rest) = dropReturn s :: lines rest := by
  simp only [lines, split_append h, List.map_cons, List.cons_append]

/-- What holds of a text without a line feed, and of a text with one more line in front when it holds
of the text, holds of every text. -/
theorem line_induction {P : List Char → Prop} (last : ∀ s, '\n' ∉ s → P s)
    (line : ∀ s rest, '\n' ∉ s → P rest → P (s ++ '\n' :: rest)) (s : List Char) : P s := by
  -- The characters before the next line feed are collected in `s'`.
  suffices h : ∀ s', '\n' ∉ s' → P (s' ++ s) from h [] List.not_mem_nil
  induction s with
  | nil =>
    intro s' hs'
    rw [List.append_nil]
    exact last s' hs'
  | cons c s ih =>
    intro s' hs'
    by_cases hc : c = '\n'
    · rw [hc]
      exact line s' s hs' (ih [] List.not_mem_nil)
    · have hnext : '\n' ∉ s' ++ [c] := by
        rw [List.mem_append, List.mem_singleton]
        rintro (hmem | rfl)
        · exact hs' hmem
        · exact hc rfl
      have := ih (s' ++ [c]) hnext
      rwa [List.append_assoc] at this

/-- Dropping a carriage return takes one off the end, if there is one. -/
theorem dropReturn_cases (s : List Char) :
    dropReturn s = s ∨ s = dropReturn s ++ ['\r'] := by
  unfold dropReturn
  by_cases h : s.getLast? = some '\r'
  · rw [if_pos h]
    exact .inr (List.dropLast_append_getLast? '\r' h).symm
  · exact .inl (if_neg h)

theorem not_mem_dropReturn {s : List Char} (h : '\n' ∉ s) : '\n' ∉ dropReturn s := by
  intro hmem
  rcases dropReturn_cases s with heq | heq
  · rw [heq] at hmem
    exact h hmem
  · rw [heq] at h
    exact h (List.mem_append_left _ hmem)

/-- No line has a line feed in it. -/
theorem not_mem_of_mem_lines {s line : List Char} (h : line ∈ lines s) : '\n' ∉ line := by
  induction s using line_induction with
  | last s hs =>
    rw [lines_of_not_mem hs] at h
    split at h
    · cases h
    · rw [List.mem_singleton] at h
      rwa [h]
  | line s rest hs ih =>
    rw [lines_append hs, List.mem_cons] at h
    rcases h with rfl | h
    · exact not_mem_dropReturn hs
    · exact ih h

theorem not_mem_of_lines_eq {s line : List Char} {earlier later : List (List Char)}
    (h : lines s = earlier ++ line :: later) : '\n' ∉ line := by
  refine not_mem_of_mem_lines (s := s) ?_
  rw [h]
  exact List.mem_append_right _ List.mem_cons_self

/-! ## Whole lines -/

/-- A text of whole lines: each of them, the last included, is ended by a line feed. -/
inductive Closed : List Char → Prop
  | nil : Closed []
  | line {s rest : List Char} (hs : '\n' ∉ s) (hrest : Closed rest) : Closed (s ++ '\n' :: rest)

/-- A text with a line in front ends in a line feed if the text does, or is empty. -/
theorem getLast?_append_lineFeed (s rest : List Char) :
    (s ++ '\n' :: rest).getLast? = some '\n' ↔ rest = [] ∨ rest.getLast? = some '\n' := by
  rw [List.getLast?_append_of_ne_nil _ (List.cons_ne_nil _ _)]
  by_cases h : rest = []
  · rw [h]
    exact iff_of_true rfl (.inl rfl)
  · rw [List.getLast?_cons_of_ne_nil h]
    exact (or_iff_right h).symm

/-- A text consists of whole lines exactly if it is empty or ends in a line feed. -/
theorem closed_iff {s : List Char} : Closed s ↔ s = [] ∨ s.getLast? = some '\n' := by
  constructor
  · intro h
    induction h with
    | nil => exact .inl rfl
    | line _ _ ih => exact .inr ((getLast?_append_lineFeed _ _).2 ih)
  · intro h
    induction s using line_induction with
    | last s hs =>
      rcases h with rfl | hlast
      · exact .nil
      · exact absurd (List.mem_of_getLast? hlast) hs
    | line s rest hs ih =>
      rcases h with hnil | hlast
      · exact absurd (List.append_eq_nil_iff.1 hnil).2 (List.cons_ne_nil _ _)
      · exact .line hs (ih ((getLast?_append_lineFeed _ _).1 hlast))

/-- A line feed ends the last of whole lines, whatever line feeds stand in front of it. -/
theorem closed_concat (s : List Char) : Closed (s ++ ['\n']) :=
  closed_iff.2 (.inr List.getLast?_concat)

theorem Closed.append {a b : List Char} (ha : Closed a) (hb : Closed b) : Closed (a ++ b) := by
  induction ha with
  | nil => exact hb
  | line hs _ ih =>
    rw [List.append_assoc, List.cons_append]
    exact .line hs ih

/-- Texts with a line feed behind each are whole lines. -/
theorem closed_join (texts : List String) :
    Closed (String.join (texts.map (· ++ "\n"))).toList := by
  induction texts with
  | nil => exact .nil
  | cons text rest ih =>
    rw [List.map_cons, String.join_cons, String.toList_append, String.toList_append]
    exact (closed_concat text.toList).append ih

/-- Behind whole lines, the next text begins a line. -/
theorem Closed.lines_append {a : List Char} (h : Closed a) (b : List Char) :
    lines (a ++ b) = lines a ++ lines b := by
  induction h with
  | nil => rfl
  | line hs _ ih =>
    rw [List.append_assoc, List.cons_append, Text.lines_append hs, Text.lines_append hs, ih,
      List.cons_append]

/-- Whole lines are as many as their line feeds. -/
theorem Closed.length_lines {s : List Char} (h : Closed s) : (lines s).length = s.count '\n' := by
  induction h with
  | nil => rfl
  | line hs _ ih =>
    rw [Text.lines_append hs, List.length_cons, ih, List.count_append, List.count_cons_self,
      List.count_eq_zero_of_not_mem hs, Nat.zero_add]

/-- A line of a text stands behind whole lines; a carriage return may follow it, and then the end of
the text or a line feed. -/
theorem exists_of_getElem?_lines {s line : List Char} {n : Nat} (h : (lines s)[n]? = some line) :
    ∃ before returns after, s = before ++ line ++ returns ++ after ∧ Closed before ∧
      before.count '\n' = n ∧ (∀ c ∈ returns, c = '\r') ∧
      (after = [] ∨ after.head? = some '\n') := by
  induction s using line_induction generalizing n with
  | last s hs =>
    rw [lines_of_not_mem hs] at h
    split at h
    · cases h
    · cases n with
      | zero =>
        obtain rfl : s = line := Option.some.inj h
        exact ⟨[], [], [], by simp, .nil, rfl, by simp, .inl rfl⟩
      | succ n => cases h
  | line s rest hs ih =>
    rw [lines_append hs] at h
    cases n with
    | zero =>
      obtain rfl : dropReturn s = line := Option.some.inj h
      rcases dropReturn_cases s with heq | heq
      · exact ⟨[], [], '\n' :: rest, by rw [heq]; simp, .nil, rfl, by simp, .inr rfl⟩
      · refine ⟨[], ['\r'], '\n' :: rest, ?_, .nil, rfl, by simp, .inr rfl⟩
        rw [List.nil_append, ← heq]
    | succ n =>
      obtain ⟨before, returns, after, rfl, hbefore, hcount, hreturns, hafter⟩ := ih h
      refine ⟨s ++ '\n' :: before, returns, after, by simp, .line hs hbefore, ?_, hreturns, hafter⟩
      rw [List.count_append, List.count_cons_self, List.count_eq_zero_of_not_mem hs, hcount,
        Nat.zero_add]

/-! ## Occurrences -/

variable {needle text : List Char}

theorem contains_iff : contains needle text = true ↔ needle <:+: text := by
  induction text with
  | nil => rw [contains, List.isEmpty_iff, List.infix_nil]
  | cons c rest ih =>
    rw [contains, Bool.or_eq_true, ih, List.isPrefixOf_iff_prefix, List.infix_cons_iff]

/-- What is left of an occurrence is dropped. -/
theorem replaceFrom_length_append (needle new skipped text : List Char) :
    replaceFrom needle new skipped.length (skipped ++ text) = replace needle new text := by
  induction skipped with
  | nil => rfl
  | cons c skipped ih => exact ih

theorem replace_append (c : Char) (needle new text : List Char) :
    replace (c :: needle) new (c :: needle ++ text) = new ++ replace (c :: needle) new text := by
  have hfound : (c :: needle).isPrefixOf (c :: (needle ++ text)) = true :=
    List.isPrefixOf_iff_prefix.2 ⟨text, rfl⟩
  rw [replace, List.cons_append, replaceFrom, if_pos hfound]
  exact congrArg _ (replaceFrom_length_append (c :: needle) new needle text)

theorem replace_cons {c : Char} (h : ¬ needle <+: c :: text) (new : List Char) :
    replace needle new (c :: text) = c :: replace needle new text :=
  if_neg (mt List.isPrefixOf_iff_prefix.1 h)

/-- The second text is the first with every occurrence of a text in `pairs` replaced by its partner,
all at once: what has been put in is not looked at again. -/
inductive Replaced (pairs : List Char → List Char → Prop) : List Char → List Char → Prop
  | nil : Replaced pairs [] []
  | occurrence {needle new text result : List Char} (h : pairs needle new)
      (hrest : Replaced pairs text result) : Replaced pairs (needle ++ text) (new ++ result)
  /-- No occurrence begins here. -/
  | other {c : Char} {text result : List Char}
      (h : ∀ needle new, pairs needle new → ¬ needle <+: c :: text)
      (hrest : Replaced pairs text result) : Replaced pairs (c :: text) (c :: result)

end ByteMachine.Text
