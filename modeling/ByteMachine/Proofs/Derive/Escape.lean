import ByteMachine.Proofs.Derive.Renaming

/-!
# Escaped braces

A message is a format string: literal text, doubled braces, which stand for single ones, and
placeholders (`Piece`). Fields are looked for in the message as it is written (`write`), and there a
doubled brace that opens can look like the start of a placeholder: it does where literal text behind
it reads like a name and its end (`Hides`). These are the only fields that are bound without being
named (`mentions_write_iff`), and where there are none, binding changes the names of placeholders
and leaves all other pieces as they are (`marked_write_iff`).

A variant without fields has its message written with no formatting, so a doubled brace stays
doubled.

All three facts are inductions on the pieces, with one lemma on what a piece does to the text behind
it.
-/

namespace ByteMachine.Derive.Template

/-! ## Format strings -/

/-- The character is no brace. -/
def IsPlain (c : Char) : Prop := c ≠ '{' ∧ c ≠ '}'

instance : DecidablePred IsPlain := fun _ => inferInstanceAs (Decidable (_ ∧ _))

/-- A text by which a placeholder can name what it stands for. -/
structure IsName (name : List Char) : Prop where
  ne_nil : name ≠ []
  plain : ∀ c ∈ name, IsPlain c
  no_colon : ':' ∉ name
  no_blank : ∀ c ∈ name, Text.isBlank c = false

/-- A piece of a format string. -/
inductive Piece where
  /-- A character of literal text. -/
  | letter (c : Char) (plain : IsPlain c)
  /-- The escape for an opening brace. -/
  | opening
  /-- The escape for a closing brace. -/
  | closing
  /-- A name in braces, with a specification behind a colon or without one. -/
  | placeholder (name : List Char) (spec : Option (List Char)) (isName : IsName name)
    (plain : ∀ s ∈ spec, ∀ c ∈ s, IsPlain c)
  deriving DecidableEq

namespace Piece

/-- What stands behind the name of a placeholder. -/
def ending : Option (List Char) → List Char
  | none => ['}']
  | some spec => ':' :: spec ++ ['}']

/-- The piece as it is written in the format string. -/
def written : Piece → List Char
  | letter c _ => [c]
  | opening => ['{', '{']
  | closing => ['}', '}']
  | placeholder name spec _ _ => '{' :: name ++ ending spec

/-- What formatting writes for the piece, given what it writes for a placeholder. -/
def shown (value : List Char → Option (List Char) → List Char) : Piece → List Char
  | letter c _ => [c]
  | opening => ['{']
  | closing => ['}']
  | placeholder name spec _ _ => value name spec

/-- The name of a placeholder. -/
def name? : Piece → Option (List Char)
  | placeholder name _ _ _ => some name
  | _ => none

end Piece

/-- A format string. -/
def write (pieces : List Piece) : List Char := pieces.flatMap Piece.written

/-- What formatting with a format string writes. -/
def display (value : List Char → Option (List Char) → List Char) (pieces : List Piece) :
    List Char :=
  pieces.flatMap (Piece.shown value)

/-- Some placeholder has the name. -/
def Names (pieces : List Piece) (name : List Char) : Prop :=
  ∃ piece ∈ pieces, piece.name? = some name

instance (pieces : List Piece) (name : List Char) : Decidable (Names pieces name) :=
  inferInstanceAs (Decidable (∃ piece ∈ pieces, _))

/-- Behind the escape for an opening brace, the format string goes on with the name and the end of a
placeholder. -/
def Hides (pieces : List Piece) (name : List Char) : Prop :=
  ∃ before after, pieces = before ++ .opening :: after ∧ opens name (write after) = true

variable {name text : List Char} {pieces : List Piece} {piece : Piece} {count : Nat}

theorem write_cons (piece : Piece) (pieces : List Piece) :
    write (piece :: pieces) = piece.written ++ write pieces :=
  List.flatMap_cons

theorem names_cons_iff :
    Names (piece :: pieces) name ↔ piece.name? = some name ∨ Names pieces name := by
  unfold Names
  exact List.exists_mem_cons_iff _ _ _

theorem not_hides_nil : ¬ Hides [] name := by
  rintro ⟨before, after, hparts, -⟩
  exact List.append_ne_nil_of_right_ne_nil _ (List.cons_ne_nil _ _) hparts.symm

theorem hides_cons_iff : Hides (piece :: pieces) name ↔
    (piece = .opening ∧ opens name (write pieces) = true) ∨ Hides pieces name := by
  constructor
  · rintro ⟨before, after, hparts, hopens⟩
    cases before with
    | nil =>
      cases hparts
      exact .inl ⟨rfl, hopens⟩
    | cons first before =>
      cases hparts
      exact .inr ⟨before, after, rfl, hopens⟩
  · rintro (⟨rfl, hopens⟩ | ⟨before, after, rfl, hopens⟩)
    · exact ⟨[], pieces, rfl, hopens⟩
    · exact ⟨piece :: before, after, rfl, hopens⟩

instance decidableHides : (pieces : List Piece) → Decidable (Hides pieces name)
  | [] => .isFalse not_hides_nil
  | _ :: pieces =>
    have := decidableHides pieces
    decidable_of_iff _ hides_cons_iff.symm

theorem exists_ending (spec : Option (List Char)) (hspec : ∀ s ∈ spec, ∀ c ∈ s, IsPlain c) :
    '{' ∉ Piece.ending spec ∧
      ∃ stop later, (stop = '}' ∨ stop = ':') ∧ Piece.ending spec = stop :: later := by
  cases spec with
  | none => exact ⟨by decide, '}', [], .inl rfl, rfl⟩
  | some s =>
    refine ⟨?_, ':', s ++ ['}'], .inr rfl, rfl⟩
    intro hmem
    rw [Piece.ending, List.mem_append, List.mem_cons, List.mem_singleton] at hmem
    rcases hmem with (h | hmem) | h
    · cases h
    · exact (hspec s rfl '{' hmem).1 rfl
    · cases h

theorem IsPlain.brace_not_mem {c : Char} (h : IsPlain c) : '{' ∉ [c] := fun hmem =>
  h.1 (List.mem_singleton.1 hmem).symm

theorem IsName.brace_not_mem (h : IsName name) : '{' ∉ name := fun hmem => (h.plain '{' hmem).1 rfl

/-- A placeholder has no brace behind its first character that opens. -/
theorem IsName.brace_not_mem_append (h : IsName name) {spec : Option (List Char)}
    (hspec : ∀ s ∈ spec, ∀ c ∈ s, IsPlain c) : '{' ∉ name ++ Piece.ending spec := by
  rw [List.mem_append, not_or]
  exact ⟨h.brace_not_mem, (exists_ending spec hspec).1⟩

theorem IsName.ne_stop (h : IsName name) : ∀ c ∈ name, c ≠ '}' ∧ c ≠ ':' := fun c hc =>
  ⟨(h.plain c hc).2, fun heq => h.no_colon (heq ▸ hc)⟩

/-- A brace is no part of a name. -/
theorem IsName.opens_brace (h : IsName name) (text : List Char) :
    opens name ('{' :: text) = false := by
  refine Bool.eq_false_iff.2 fun hopens => ?_
  obtain ⟨stop, later, hstop, heq⟩ := opens_iff.1 hopens
  obtain ⟨c, rest, rfl⟩ := List.exists_cons_of_ne_nil h.ne_nil
  cases heq
  exact h.brace_not_mem List.mem_cons_self

/-- A placeholder opens its own name and no other. -/
theorem opens_placeholder_iff {other : List Char} (hname : IsName name) (hother : IsName other)
    {spec : Option (List Char)} (hspec : ∀ s ∈ spec, ∀ c ∈ s, IsPlain c) :
    opens name (other ++ Piece.ending spec ++ text) = true ↔ other = name := by
  obtain ⟨-, stop, later, hstop, hending⟩ := exists_ending spec hspec
  have hself : opens other (other ++ Piece.ending spec ++ text) = true := by
    rw [hending, List.append_assoc]
    exact opens_iff.2 ⟨stop, later ++ text, hstop, rfl⟩
  constructor
  · intro h
    exact opens_unique hother.ne_stop hname.ne_stop hself h
  · rintro rfl
    exact hself

theorem mentions_append {s : List Char} (h : '{' ∉ s) (text : List Char) :
    mentions (s ++ text) name = mentions text name := by
  induction s with
  | nil => rfl
  | cons c s ih =>
    rw [List.mem_cons, not_or] at h
    rw [List.cons_append, mentions_cons, ih h.2, beq_false_of_ne (Ne.symm h.1)]
    rfl

/-- A piece adds a mention if it is a placeholder of the name, or hides it together with the text
behind it. -/
theorem mentions_written_iff (hname : IsName name) (piece : Piece) (text : List Char) :
    mentions (piece.written ++ text) name = true ↔ (piece.name? = some name ∨
      (piece = .opening ∧ opens name text = true)) ∨ mentions text name = true := by
  cases piece with
  | letter c plain =>
    rw [Piece.written, mentions_append plain.brace_not_mem]
    simp only [Piece.name?, reduceCtorEq, false_and, or_self, false_or]
  | opening =>
    show mentions ('{' :: '{' :: text) name = true ↔ _
    rw [mentions_cons, hname.opens_brace, mentions_cons]
    simp only [Piece.name?, reduceCtorEq, true_and, false_or, Bool.and_false, Bool.false_or,
      beq_self_eq_true, Bool.true_and, Bool.or_eq_true]
  | closing =>
    rw [Piece.written, mentions_append (by decide)]
    simp only [Piece.name?, reduceCtorEq, false_and, or_self, false_or]
  | placeholder other spec hother hspec =>
    rw [Piece.written, List.cons_append, List.cons_append, mentions_cons, Bool.or_eq_true,
      beq_self_eq_true, Bool.true_and, opens_placeholder_iff hname hother hspec,
      mentions_append (hother.brace_not_mem_append hspec)]
    simp only [Piece.name?, reduceCtorEq, false_and, or_false, Option.some.injEq]

/-- **Mentions are placeholders and what escapes hide.** -/
theorem mentions_write_iff (hname : IsName name) (pieces : List Piece) :
    mentions (write pieces) name = true ↔ Names pieces name ∨ Hides pieces name := by
  induction pieces with
  | nil =>
    refine iff_of_false Bool.false_ne_true ?_
    rintro (⟨piece, hmem, -⟩ | h)
    · exact List.not_mem_nil hmem
    · exact not_hides_nil h
  | cons piece pieces ih =>
    rw [write_cons, mentions_written_iff hname, ih, names_cons_iff, hides_cons_iff, or_or_or_comm]

/-! ## What binding makes of a format string -/

theorem IsName.variable (h : IsName name) : IsName ('f' :: name) where
  ne_nil := List.cons_ne_nil _ _
  plain := List.forall_mem_cons.2 ⟨⟨by decide, by decide⟩, h.plain⟩
  no_colon hmem := h.no_colon ((List.mem_cons.1 hmem).resolve_left (by decide))
  no_blank := List.forall_mem_cons.2 ⟨by decide, h.no_blank⟩

theorem isName_position (i : Nat) : IsName (position i) where
  ne_nil := position_ne_nil i
  plain _ hc := ⟨ne_of_mem_position hc (by decide), ne_of_mem_position hc (by decide)⟩
  no_colon := not_mem_position (by decide) i
  no_blank _ hc := Text.isBlank_of_isDigit (isDigit_of_mem_position hc)

/-- The piece with a position below `count` renamed to its variable, if it is a placeholder of one.
-/
def Piece.renamed (count : Nat) : Piece → Piece
  | placeholder name spec isName plain =>
    if name ∈ (List.range count).map fun i => (toString i).toList then
      placeholder ('f' :: name) spec isName.variable plain
    else placeholder name spec isName plain
  | piece => piece

/-- A piece that is no escape for an opening brace is bound by itself, whatever stands behind it. -/
theorem marked_written (h : piece ≠ .opening) (text : List Char) :
    marked (opensBelow count) (piece.written ++ text) =
      (piece.renamed count).written ++ marked (opensBelow count) text := by
  cases piece with
  | letter c plain => exact marked_append plain.brace_not_mem text
  | opening => exact absurd rfl h
  | closing =>
    have hbrace : '{' ∉ ['}', '}'] := by decide
    exact marked_append hbrace text
  | placeholder name spec isName plain =>
    have hbrace := isName.brace_not_mem_append plain
    have hopens : opensBelow count (name ++ Piece.ending spec ++ text) = true ↔
        name ∈ (List.range count).map position := by
      rw [opensBelow_iff, List.mem_map]
      constructor
      · rintro ⟨i, hi, hopens⟩
        have := (opens_placeholder_iff (isName_position i) isName plain).1 hopens
        exact ⟨i, List.mem_range.2 hi, this.symm⟩
      · rintro ⟨i, hi, rfl⟩
        exact ⟨i, List.mem_range.1 hi, (opens_placeholder_iff isName isName plain).2 rfl⟩
    rw [Piece.written, List.cons_append, List.cons_append, Piece.renamed]
    simp only [← position_eq]
    by_cases hmem : name ∈ (List.range count).map position
    · rw [if_pos hmem, marked_brace_of_true (hopens.2 hmem), marked_append hbrace]
      rfl
    · rw [if_neg hmem, marked_brace_of_false (Bool.eq_false_iff.2 (mt hopens.1 hmem)),
        marked_append hbrace]
      rfl

/-- Behind the escape for an opening brace, a letter is inserted where the text opens a position. -/
theorem marked_opening (text : List Char) :
    marked (opensBelow count) (Piece.opening.written ++ text) =
      '{' :: '{' :: if opensBelow count text = true then 'f' :: marked (opensBelow count) text
        else marked (opensBelow count) text := by
  have hfirst : opensBelow count ('{' :: text) = false := by
    refine Bool.eq_false_iff.2 fun h => ?_
    obtain ⟨i, -, hopens⟩ := opensBelow_iff.1 h
    rw [(isName_position i).opens_brace] at hopens
    cases hopens
  show marked (opensBelow count) ('{' :: '{' :: text) = _
  rw [marked_brace_of_false hfirst]
  cases h : opensBelow count text with
  | true => rw [marked_brace_of_true h, if_pos rfl]
  | false => rw [marked_brace_of_false h, if_neg Bool.false_ne_true]

/-- Renamed pieces begin with the letter only where the pieces do. -/
theorem exists_letter_of_renamed (h : (write (pieces.map (·.renamed count))).head? = some 'f') :
    ∃ later, write pieces = 'f' :: later := by
  cases pieces with
  | nil => cases h
  | cons piece pieces =>
    rw [List.map_cons, write_cons] at h
    cases piece with
    | letter c plain =>
      cases h
      exact ⟨write pieces, rfl⟩
    | opening => cases h
    | closing => cases h
    | placeholder name spec isName plain =>
      rw [Piece.renamed] at h
      split at h
      · cases h
      · cases h

/-- **Binding renames placeholders, unless an escape hides a position.** -/
theorem marked_write_iff (count : Nat) (pieces : List Piece) :
    marked (opensBelow count) (write pieces) = write (pieces.map (·.renamed count)) ↔
      ∀ i < count, ¬ Hides pieces (position i) := by
  induction pieces with
  | nil => exact iff_of_true rfl fun _ _ => not_hides_nil
  | cons piece pieces ih =>
    simp only [hides_cons_iff, not_or, imp_and, forall_and]
    rw [← ih, List.map_cons, write_cons, write_cons]
    by_cases hpiece : piece = .opening
    · subst hpiece
      rw [marked_opening]
      cases h : opensBelow count (write pieces) with
      | true =>
        refine iff_of_false (fun heq => ?_) fun hnone => ?_
        · -- The inserted letter would be the first of a text that begins with a digit.
          rw [if_pos rfl] at heq
          have htail : 'f' :: marked (opensBelow count) (write pieces) =
              write (pieces.map (·.renamed count)) := (List.cons.inj (List.cons.inj heq).2).2
          obtain ⟨later, hlater⟩ := exists_letter_of_renamed (by rw [← htail]; rfl)
          rw [hlater] at h
          exact Bool.false_ne_true
            (((steady_any steady_opens_position).letter later).symm.trans h)
        · obtain ⟨i, hi, hopens⟩ := opensBelow_iff.1 h
          exact hnone.1 i hi ⟨rfl, hopens⟩
      | false =>
        have hnone : ∀ i < count, ¬ (Piece.opening = .opening ∧
            opens (position i) (write pieces) = true) := fun i hi hboth =>
          Bool.eq_false_iff.1 h (opensBelow_iff.2 ⟨i, hi, hboth.2⟩)
        rw [if_neg Bool.false_ne_true, and_iff_right hnone]
        exact List.append_right_inj ['{', '{']
    · have hother : ∀ i < count, ¬ (piece = .opening ∧ opens (position i) (write pieces) = true) :=
        fun i _ hboth => hpiece hboth.1
      rw [marked_written hpiece, List.append_right_inj]
      exact (and_iff_right hother).symm

/-! ## Messages that are not formatted -/

theorem display_cons (value : List Char → Option (List Char) → List Char) (piece : Piece)
    (pieces : List Piece) :
    display value (piece :: pieces) = piece.shown value ++ display value pieces :=
  List.flatMap_cons

/-- Formatting a message without placeholders makes it no longer. -/
theorem length_display_le (value : List Char → Option (List Char) → List Char)
    (h : ∀ name, ¬ Names pieces name) :
    (display value pieces).length ≤ (write pieces).length := by
  induction pieces with
  | nil => exact Nat.le_refl 0
  | cons piece pieces ih =>
    simp only [names_cons_iff, not_or, forall_and] at h
    have hpiece : (piece.shown value).length ≤ piece.written.length := by
      cases piece with
      | letter c plain => exact Nat.le_refl 1
      | opening => exact Nat.le_succ 1
      | closing => exact Nat.le_succ 1
      | placeholder name spec isName plain => exact absurd rfl (h.1 name)
    rw [display_cons, write_cons, List.length_append, List.length_append]
    exact Nat.add_le_add hpiece (ih h.2)

/-- Formatting a message without placeholders changes it exactly if it has an escape. -/
theorem write_eq_display_iff (value : List Char → Option (List Char) → List Char)
    (h : ∀ name, ¬ Names pieces name) :
    write pieces = display value pieces ↔ .opening ∉ pieces ∧ .closing ∉ pieces := by
  induction pieces with
  | nil => exact iff_of_true rfl ⟨List.not_mem_nil, List.not_mem_nil⟩
  | cons piece pieces ih =>
    simp only [names_cons_iff, not_or, forall_and] at h
    have hle := length_display_le value h.2
    -- After an escape the written text has one character too many.
    have hescape (brace : Char) :
        brace :: brace :: write pieces ≠ brace :: display value pieces := fun heq => by
      have hlength := congrArg List.length (List.cons.inj heq).2
      rw [List.length_cons] at hlength
      omega
    rw [display_cons, write_cons]
    cases piece with
    | letter c plain =>
      simp only [List.mem_cons, reduceCtorEq, false_or]
      rw [← ih h.2]
      exact List.append_right_inj [c]
    | opening => exact iff_of_false (hescape '{') fun hnone => hnone.1 List.mem_cons_self
    | closing => exact iff_of_false (hescape '}') fun hnone => hnone.2 List.mem_cons_self
    | placeholder name spec isName plain => exact absurd rfl (h.1 name)

/-- **Escaped braces are text unless they hide a field.** Let a message be made of literal text,
escapes and placeholders. In an arm with fields, a field is bound exactly if a placeholder names it
or an escape hides it. The arm writes the message with its placeholders renamed and its escapes left
alone, in the case of unnamed fields exactly if no escape hides one of them. In an arm without
fields the message is written as it stands, which is what formatting would make of it exactly if it
has no escape. -/
theorem escapes_are_text_unless_hiding (v : Variant) (pieces : List Piece)
    (hmessage : v.Carries (String.ofList (write pieces))) :
    (∀ count, v.fields = .tuple count → ∃ bindings format arguments,
      v.arm = .ok ⟨v.name, .tuple bindings format arguments⟩ ∧
      (∀ i < count, bindings[i]? = some (some ("f" ++ toString i)) ↔
        Names pieces (toString i).toList ∨ Hides pieces (toString i).toList) ∧
      (format.toList = write (pieces.map (·.renamed count)) ↔
        ∀ i < count, ¬ Hides pieces (toString i).toList)) ∧
    (∀ names, v.fields = .named names → (∀ name ∈ names, IsName name.toList) →
      ∃ bindings arguments,
        v.arm = .ok ⟨v.name, .named bindings (String.ofList (write pieces)) arguments⟩ ∧
        ∀ name ∈ names, name ∈ bindings ↔
          Names pieces name.toList ∨ Hides pieces name.toList) ∧
    (v.fields = .unit → (∀ name, ¬ Names pieces name) → ∃ text, v.arm = .ok ⟨v.name, .text text⟩ ∧
      ∀ value, text.toList = display value pieces ↔ .opening ∉ pieces ∧ .closing ∉ pieces) := by
  have harm (body : Arm.Body) (h : v.fields.body (String.ofList (write pieces)) = body) :
      v.arm = .ok ⟨v.name, body⟩ := arm_eq_ok_iff.2 ⟨_, hmessage, by rw [h]⟩
  refine ⟨fun count hfields => ?_, fun names hfields hnames => ?_, fun hfields hnone => ?_⟩
  · refine ⟨_, _, _, harm _ (by rw [hfields]; rfl), fun i hi => ?_, ?_⟩
    · rw [List.getElem?_map, List.getElem?_range hi, Option.map_some, String.toList_ofList,
        ← position_eq, ← mentions_write_iff (isName_position i)]
      simp only [ofList_binding, Option.some.injEq, Option.ite_none_right_eq_some, and_true]
    · rw [String.toList_ofList, String.toList_ofList, bindPositions_eq, marked_write_iff]
      simp only [position_eq]
  · refine ⟨_, _, harm _ (by rw [hfields]; rfl), fun name hname => ?_⟩
    rw [List.mem_filter, and_iff_right hname, String.toList_ofList,
      mentions_write_iff (hnames name hname)]
  · refine ⟨_, harm _ (by rw [hfields]; rfl), fun value => ?_⟩
    rw [String.toList_ofList, write_eq_display_iff value hnone]

/-- A placeholder may stand between escapes, and nothing is hidden by them. A field is hidden behind
an escape, and bound, with only its name and a colon behind it. A closing escape alone shows two
braces. -/
theorem escapes_are_text_unless_hiding_of_three_messages :
    let first : Piece := .placeholder (position 0) none (isName_position 0) fun _ h => by cases h
    let nested : List Piece := [.opening, first, .closing]
    let hidden : List Piece := [.opening, .letter 'p' (by decide), .letter ':' (by decide)]
    let closed : List Piece := [.letter 'a' (by decide), .closing]
    let tuple : Variant := ⟨"A", [⟨"error", .literal "\x7b\x7b\x7b0\x7d\x7d\x7d"⟩], .tuple 2⟩
    let named : Variant := ⟨"B", [⟨"error", .literal "\x7b\x7bp:"⟩], .named ["p"]⟩
    let unit : Variant := ⟨"C", [⟨"error", .literal "a\x7d\x7d"⟩], .unit⟩
    (tuple.Carries (String.ofList (write nested)) ∧ ∃ bindings format arguments,
      tuple.arm = .ok ⟨"A", .tuple bindings format arguments⟩ ∧
      bindings[0]? = some (some "f0") ∧ bindings[1]? ≠ some (some "f1") ∧
      format.toList = write (nested.map (·.renamed 2))) ∧
    (named.Carries (String.ofList (write hidden)) ∧ IsName "p".toList ∧ ∃ bindings arguments,
      named.arm = .ok ⟨"B", .named bindings "\x7b\x7bp:" arguments⟩ ∧ "p" ∈ bindings) ∧
    unit.Carries (String.ofList (write closed)) ∧ ∃ text, unit.arm = .ok ⟨"C", .text text⟩ ∧
      text.toList ≠ display (fun _ _ => []) closed := by
  intro first nested hidden closed tuple named unit
  have hwritten : String.ofList (write nested) = "\x7b\x7b\x7b0\x7d\x7d\x7d" := by decide +kernel
  have htuple : tuple.Carries (String.ofList (write nested)) := by
    rw [hwritten]
    exact carries_of_head rfl
  have hnamed : named.Carries (String.ofList (write hidden)) := carries_of_head rfl
  have hunit : unit.Carries (String.ofList (write closed)) := carries_of_head rfl
  have hname : IsName "p".toList :=
    ⟨by decide, List.forall_mem_singleton.2 (by decide), by decide,
      List.forall_mem_singleton.2 (by decide)⟩
  refine ⟨⟨htuple, ?_⟩, ⟨hnamed, hname, ?_⟩, hunit, ?_⟩
  · obtain ⟨bindings, format, arguments, harm, hbound, hformat⟩ :=
      (escapes_are_text_unless_hiding tuple nested htuple).1 2 rfl
    refine ⟨bindings, format, arguments, harm, (hbound 0 (by decide)).2 (.inl ?_), fun h => ?_,
      hformat.2 (by decide)⟩
    · exact ⟨first, List.mem_cons_of_mem _ List.mem_cons_self, by decide +kernel⟩
    · exact absurd ((hbound 1 (by decide)).1 h) (by decide +kernel)
  · obtain ⟨bindings, arguments, harm, hbound⟩ :=
      (escapes_are_text_unless_hiding named hidden hnamed).2.1 ["p"] rfl
        (List.forall_mem_singleton.2 hname)
    exact ⟨bindings, arguments, harm, (hbound "p" (by decide)).2 (.inr (by decide))⟩
  · have hnone : ∀ name, ¬ Names closed name := by
      rintro name ⟨piece, hpiece, hplaceholder⟩
      rcases List.mem_cons.1 hpiece with rfl | hpiece
      · cases hplaceholder
      · cases List.mem_singleton.1 hpiece
        cases hplaceholder
    obtain ⟨text, harm, hshown⟩ :=
      (escapes_are_text_unless_hiding unit closed hunit).2.2 rfl hnone
    exact ⟨text, harm, fun h => ((hshown _).1 h).2 (by decide)⟩

/-- An escaped position is bound as if a placeholder named it, and gets a letter; an escape in the
message of a variant without fields is shown as it is written. -/
theorem escaped_position_is_bound :
    let escaped : List Piece := [.opening, .letter '0' (by decide), .closing]
    let tuple : Variant := ⟨"A", [⟨"error", .literal (String.ofList (write escaped))⟩], .tuple 1⟩
    let unit : Variant := ⟨"B", [⟨"error", .literal (String.ofList (write [.opening]))⟩], .unit⟩
    ¬ Names escaped ['0'] ∧
      tuple.arm = .ok ⟨"A", .tuple [some "f0"] "\x7b\x7bf0\x7d\x7d" [("f0", "f0")]⟩ ∧
      unit.arm = .ok ⟨"B", .text "\x7b\x7b"⟩ ∧
      String.ofList (display (fun _ _ => []) [.opening]) = "\x7b" := by
  intro escaped tuple unit
  exact ⟨by decide, by decide +kernel, by decide +kernel, by decide +kernel⟩

end ByteMachine.Derive.Template
