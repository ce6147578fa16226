import ByteMachine.Proofs.Derive.Refusal
import ByteMachine.Proofs.Numeral
import ByteMachine.Proofs.Text

/-!
# Positions renamed one after the other

A message mentions its unnamed fields by their positions, and the positions are renamed one after
the other, each in a text that the renamings before it have already changed. Still the text that
comes out is the message with all of them replaced at once, and their order does not matter.

Renaming a position does no more than insert an `f` behind some braces, namely behind those where
the message goes on with the position and the end of a name (`opens`). Such an insertion is
described by a predicate on what stands behind a brace (`marked`). No position begins with an `f`
and none has a brace in it, so whether a text opens a position is the same before and after letters
are inserted further on, and an `f` that is inserted right there keeps every other position from
opening (`Steady`). Hence two insertions come to one, for the disjunction of their predicates
(`marked_marked`), and so do any number of them in any order (`foldl_rename`).
-/

namespace ByteMachine.Derive.Template

/-- The text has a placeholder of the name, with or without a specification. -/
def HasPlaceholder (text name : List Char) : Prop :=
  '{' :: name ++ ['}'] <:+: text ∨ '{' :: name ++ [':'] <:+: text

instance (text name : List Char) : Decidable (HasPlaceholder text name) :=
  inferInstanceAs (Decidable (_ ∨ _))

theorem mentions_iff {text name : List Char} :
    mentions text name = true ↔ HasPlaceholder text name := by
  rw [mentions, Bool.or_eq_true, Text.contains_iff, Text.contains_iff]
  exact Iff.rfl

/-! ## Places where a placeholder opens -/

/-- Behind a brace, the text goes on like a placeholder of the name. -/
def opens (name rest : List Char) : Bool :=
  (name ++ ['}']).isPrefixOf rest || (name ++ [':']).isPrefixOf rest

variable {name : List Char} {p q : List Char → Bool}

theorem opens_iff {rest : List Char} :
    opens name rest = true ↔
      ∃ stop later, (stop = '}' ∨ stop = ':') ∧ rest = name ++ stop :: later := by
  rw [opens, Bool.or_eq_true, List.isPrefixOf_iff_prefix, List.isPrefixOf_iff_prefix]
  constructor
  · rintro (⟨later, rfl⟩ | ⟨later, rfl⟩)
    · exact ⟨'}', later, .inl rfl, List.append_assoc _ _ _⟩
    · exact ⟨':', later, .inr rfl, List.append_assoc _ _ _⟩
  · rintro ⟨stop, later, rfl | rfl, rfl⟩
    · exact .inl ⟨later, List.append_assoc _ _ _⟩
    · exact .inr ⟨later, List.append_assoc _ _ _⟩

/-- A text opens one name at most: the name ends where it does. -/
theorem opens_unique {other rest : List Char} (hname : ∀ c ∈ name, c ≠ '}' ∧ c ≠ ':')
    (hother : ∀ c ∈ other, c ≠ '}' ∧ c ≠ ':') (h : opens name rest = true)
    (h' : opens other rest = true) : name = other := by
  obtain ⟨stop, later, hstop, rfl⟩ := opens_iff.1 h
  obtain ⟨stop', later', hstop', heq⟩ := opens_iff.1 h'
  -- Where one of them goes on, the next character is the stop behind the other.
  rcases List.append_eq_append_iff.1 heq with ⟨more, rfl, hmore⟩ | ⟨more, rfl, hmore⟩
  · cases more with
    | nil => exact (List.append_nil name).symm
    | cons c more =>
      cases hmore
      have hmem := hother stop (List.mem_append_right _ List.mem_cons_self)
      exact absurd hstop (not_or.2 hmem)
  · cases more with
    | nil => exact List.append_nil other
    | cons c more =>
      cases hmore
      have hmem := hname stop' (List.mem_append_right _ List.mem_cons_self)
      exact absurd hstop' (not_or.2 hmem)

/-- A text mentions a name at one of its braces. -/
theorem mentions_cons (c : Char) (text : List Char) :
    mentions (c :: text) name = (c == '{' && opens name text || mentions text name) := by
  have hplain : (plain name).isPrefixOf (c :: text) =
      ('{' == c && (name ++ ['}']).isPrefixOf text) := rfl
  have hspecified : (specified name).isPrefixOf (c :: text) =
      ('{' == c && (name ++ [':']).isPrefixOf text) := rfl
  rw [mentions, Text.contains, Text.contains, hplain, hspecified, mentions, opens, BEq.comm,
    Bool.and_or_distrib_left]
  ac_rfl

/-- Of the braces of a text, one is its first character or all are further on. -/
theorem exists_brace_cons_iff {holds : List Char → Prop} {c : Char} {text : List Char} :
    (∃ rest, '{' :: rest <:+ c :: text ∧ holds rest) ↔
      (c = '{' ∧ holds text) ∨ ∃ rest, '{' :: rest <:+ text ∧ holds rest := by
  constructor
  · rintro ⟨rest, hsuffix, hrest⟩
    rcases List.suffix_cons_iff.1 hsuffix with heq | hsuffix
    · cases heq
      exact .inl ⟨rfl, hrest⟩
    · exact .inr ⟨rest, hsuffix, hrest⟩
  · rintro (⟨rfl, hrest⟩ | ⟨rest, hsuffix, hrest⟩)
    · exact ⟨text, List.suffix_refl _, hrest⟩
    · exact ⟨rest, hsuffix.trans (List.suffix_cons c text), hrest⟩

theorem not_exists_brace_nil {holds : List Char → Prop} :
    ¬ ∃ rest, '{' :: rest <:+ [] ∧ holds rest := by
  rintro ⟨rest, hsuffix, -⟩
  cases List.suffix_nil.1 hsuffix

theorem mentions_iff_exists {text : List Char} :
    mentions text name = true ↔ ∃ rest, '{' :: rest <:+ text ∧ opens name rest = true := by
  induction text with
  | nil => exact iff_of_false Bool.false_ne_true not_exists_brace_nil
  | cons c text ih =>
    rw [mentions_cons, Bool.or_eq_true, Bool.and_eq_true, beq_iff_eq, ih, exists_brace_cons_iff]

/-! ## Inserted letters -/

/-- The text with an `f` inserted behind every brace where `p` holds of what stands behind it. -/
def marked (p : List Char → Bool) : List Char → List Char
  | [] => []
  | c :: text => if c = '{' ∧ p text then '{' :: 'f' :: marked p text else c :: marked p text

theorem marked_cons_of_ne {c : Char} (h : c ≠ '{') (text : List Char) :
    marked p (c :: text) = c :: marked p text :=
  if_neg fun hboth => h hboth.1

theorem marked_brace_of_true {text : List Char} (h : p text = true) :
    marked p ('{' :: text) = '{' :: 'f' :: marked p text :=
  if_pos ⟨rfl, h⟩

theorem marked_brace_of_false {text : List Char} (h : p text = false) :
    marked p ('{' :: text) = '{' :: marked p text :=
  if_neg fun hboth => by rw [h] at hboth; cases hboth.2

/-- Nothing is inserted where there is no brace. -/
theorem marked_append {s : List Char} (h : '{' ∉ s) (text : List Char) :
    marked p (s ++ text) = s ++ marked p text := by
  induction s with
  | nil => rfl
  | cons c s ih =>
    rw [List.mem_cons, not_or] at h
    rw [List.cons_append, marked_cons_of_ne (Ne.symm h.1), ih h.2, List.cons_append]

/-- What has no brace in it begins a text with inserted letters exactly if it begins the text. -/
theorem prefix_marked_iff {s text : List Char} (h : '{' ∉ s) :
    s <+: marked p text ↔ s <+: text := by
  induction s generalizing text with
  | nil => exact iff_of_true List.nil_prefix List.nil_prefix
  | cons c s ih =>
    rw [List.mem_cons, not_or] at h
    cases text with
    | nil => exact Iff.rfl
    | cons d text =>
      by_cases hd : d = '{'
      · subst hd
        have hfirst (other : List Char) : ¬ c :: s <+: '{' :: other := fun hbegins =>
          h.1 (List.cons_prefix_cons.1 hbegins).1.symm
        cases hp : p text with
        | false => rw [marked_brace_of_false hp]; exact iff_of_false (hfirst _) (hfirst _)
        | true => rw [marked_brace_of_true hp]; exact iff_of_false (hfirst _) (hfirst _)
      · rw [marked_cons_of_ne hd, List.cons_prefix_cons, List.cons_prefix_cons, ih h.2]

/-- Only what stands behind the braces of the text matters. -/
theorem marked_congr {text : List Char} (h : ∀ rest, '{' :: rest <:+ text → p rest = q rest) :
    marked p text = marked q text := by
  induction text with
  | nil => rfl
  | cons c text ih =>
    have hrest := ih fun rest hrest => h rest (hrest.trans (List.suffix_cons c text))
    by_cases hc : c = '{'
    · subst hc
      have hhere : p text = q text := h text (List.suffix_refl _)
      rw [marked, marked, hrest, hhere]
    · rw [marked_cons_of_ne hc, marked_cons_of_ne hc, hrest]

theorem marked_false (text : List Char) : marked (fun _ => false) text = text := by
  induction text with
  | nil => rfl
  | cons c text ih => rw [marked, ih]; exact if_neg fun hboth => Bool.false_ne_true hboth.2

/-- Inserted letters make no difference to the predicate, and an inserted letter refutes it. -/
structure Steady (p : List Char → Bool) : Prop where
  marked : ∀ q text, p (marked q text) = p text
  letter : ∀ text, p ('f' :: text) = false

/-- To insert letters in two rounds is to insert them in one. -/
theorem marked_marked (hp : Steady p) (q : List Char → Bool) (text : List Char) :
    marked p (marked q text) = marked (fun rest => q rest || p rest) text := by
  induction text with
  | nil => rfl
  | cons c text ih =>
    by_cases hc : c = '{'
    · subst hc
      cases hq : q text with
      | true =>
        have hboth : (q text || p text) = true := by rw [hq, Bool.true_or]
        rw [marked_brace_of_true hq, marked_brace_of_false (hp.letter _),
          marked_cons_of_ne (by decide), ih, marked_brace_of_true hboth]
      | false =>
        have hboth : (q text || p text) = p text := by rw [hq, Bool.false_or]
        rw [marked_brace_of_false hq]
        cases hp' : p text with
        | true =>
          rw [marked_brace_of_true ((hp.marked q text).trans hp'), ih,
            marked_brace_of_true (hboth.trans hp')]
        | false =>
          rw [marked_brace_of_false ((hp.marked q text).trans hp'), ih,
            marked_brace_of_false (hboth.trans hp')]
    · rw [marked_cons_of_ne hc, marked_cons_of_ne hc, marked_cons_of_ne hc, ih]

theorem Steady.or (hp : Steady p) (hq : Steady q) : Steady fun rest => p rest || q rest where
  marked r text := by rw [hp.marked, hq.marked]
  letter text := by rw [hp.letter, hq.letter]; rfl

theorem steady_any {order : List Nat} {at_ : Nat → List Char → Bool} (h : ∀ i, Steady (at_ i)) :
    Steady fun rest => order.any fun i => at_ i rest where
  marked q text := by simp only [(h _).marked]
  letter text := List.any_eq_false.2 fun i _ => by rw [(h i).letter]; exact Bool.false_ne_true

/-- A text that neither has a brace in it nor begins with an `f`, and is not empty, is steady as a
beginning. -/
theorem steady_isPrefixOf {s : List Char} (hbrace : '{' ∉ s) (hletter : 'f' ∉ s) (hne : s ≠ []) :
    Steady fun rest => s.isPrefixOf rest where
  marked q text := by
    rw [Bool.eq_iff_iff, List.isPrefixOf_iff_prefix, List.isPrefixOf_iff_prefix,
      prefix_marked_iff hbrace]
  letter text := by
    obtain ⟨c, s, rfl⟩ := List.exists_cons_of_ne_nil hne
    refine Bool.eq_false_iff.2 fun hbegins => hletter ?_
    rw [List.isPrefixOf_iff_prefix, List.cons_prefix_cons] at hbegins
    rw [hbegins.1]
    exact List.mem_cons_self

/-- Replacing placeholders by those of a name with an `f` in front is to insert letters. -/
theorem replace_eq_marked {s : List Char} (h : '{' ∉ s) (text : List Char) :
    Text.replace ('{' :: s) ('{' :: 'f' :: s) text = marked (s.isPrefixOf ·) text := by
  -- Behind an occurrence the text is shorter by the whole of it, so the induction is on its length.
  induction hlength : text.length using Nat.strongRecOn generalizing text with
  | ind n ih =>
    cases text with
    | nil => rfl
    | cons c text =>
      by_cases hfound : '{' :: s <+: c :: text
      · obtain ⟨rest, hrest⟩ := hfound
        rw [List.cons_append, List.cons.injEq] at hrest
        obtain ⟨rfl, rfl⟩ := hrest
        have hshorter : rest.length < n := by
          rw [← hlength, List.length_cons, List.length_append]
          omega
        have hopens : s.isPrefixOf (s ++ rest) = true :=
          List.isPrefixOf_iff_prefix.2 (List.prefix_append s rest)
        calc Text.replace ('{' :: s) ('{' :: 'f' :: s) ('{' :: (s ++ rest))
            = '{' :: 'f' :: (s ++ Text.replace ('{' :: s) ('{' :: 'f' :: s) rest) :=
              Text.replace_append '{' s _ rest
          _ = '{' :: 'f' :: (s ++ marked (s.isPrefixOf ·) rest) := by rw [ih _ hshorter rest rfl]
          _ = '{' :: 'f' :: marked (s.isPrefixOf ·) (s ++ rest) := by rw [marked_append h]
          _ = marked (s.isPrefixOf ·) ('{' :: (s ++ rest)) := (marked_brace_of_true hopens).symm
      · have hshorter : text.length < n := by
          rw [← hlength]
          exact Nat.lt_succ_self _
        rw [Text.replace_cons hfound, ih _ hshorter text rfl]
        refine (if_neg fun hboth => hfound ?_).symm
        rw [hboth.1, List.cons_prefix_cons]
        exact ⟨rfl, List.isPrefixOf_iff_prefix.1 hboth.2⟩

/-! ## Positions -/

theorem position_eq (i : Nat) : position i = (toString i).toList := by
  rw [position, decimal_eq_toString]

theorem position_ne_nil (i : Nat) : position i ≠ [] := by
  rw [position_eq, Nat.toString_eq_ofList_toDigits, String.toList_ofList]
  exact List.ne_nil_of_length_pos Nat.length_toDigits_pos

theorem isDigit_of_mem_position {i : Nat} {c : Char} (h : c ∈ position i) : c.isDigit = true := by
  rw [position_eq, Nat.toString_eq_ofList_toDigits, String.toList_ofList] at h
  exact Nat.isDigit_of_mem_toDigits (by decide) (by decide) h

theorem not_mem_position {c : Char} (h : c.isDigit = false) (i : Nat) : c ∉ position i := by
  intro hmem
  rw [isDigit_of_mem_position hmem] at h
  cases h

theorem ne_of_mem_position {c other : Char} {i : Nat} (h : c ∈ position i)
    (hother : other.isDigit = false) : c ≠ other :=
  fun heq => not_mem_position hother i (heq ▸ h)

theorem ne_stop_of_mem_position {c : Char} {i : Nat} (h : c ∈ position i) : c ≠ '}' ∧ c ≠ ':' :=
  ⟨ne_of_mem_position h (by decide), ne_of_mem_position h (by decide)⟩

theorem position_injective : Function.Injective position := fun _ _ h =>
  Numeral.write_injective Numeral.readable_decimal (String.toList_injective h)

theorem brace_not_mem_position {stop : Char} (h : stop ≠ '{') (i : Nat) :
    '{' ∉ position i ++ [stop] := by
  rw [List.mem_append, List.mem_singleton, not_or]
  exact ⟨not_mem_position (by decide) i, h.symm⟩

theorem steady_position {stop : Char} (hbrace : stop ≠ '{') (hletter : stop ≠ 'f') (i : Nat) :
    Steady fun rest => (position i ++ [stop]).isPrefixOf rest := by
  refine steady_isPrefixOf (brace_not_mem_position hbrace i) ?_
    (List.append_ne_nil_of_right_ne_nil _ (List.cons_ne_nil _ _))
  rw [List.mem_append, List.mem_singleton, not_or]
  exact ⟨not_mem_position (by decide) i, hletter.symm⟩

theorem steady_opens_position (i : Nat) : Steady fun rest => opens (position i) rest :=
  (steady_position (by decide) (by decide) i).or (steady_position (by decide) (by decide) i)

/-- Renaming a position inserts a letter at its placeholders. -/
theorem rename_position (i : Nat) (text : List Char) :
    rename text (position i) (binding i) = marked (fun rest => opens (position i) rest) text := by
  have hplain (t : List Char) : Text.replace (plain (position i)) (plain (binding i)) t =
      marked (fun rest => (position i ++ ['}']).isPrefixOf rest) t :=
    replace_eq_marked (brace_not_mem_position (by decide) i) t
  have hspecified (t : List Char) :
      Text.replace (specified (position i)) (specified (binding i)) t =
        marked (fun rest => (position i ++ [':']).isPrefixOf rest) t :=
    replace_eq_marked (brace_not_mem_position (by decide) i) t
  rw [rename, hplain, hspecified, marked_marked (steady_position (by decide) (by decide) i)]
  rfl

/-- Renaming positions one after the other inserts a letter at the placeholders of each. -/
theorem foldl_rename (order : List Nat) (text : List Char) :
    order.foldl (fun t i => rename t (position i) (binding i)) text =
      marked (fun rest => order.any fun i => opens (position i) rest) text := by
  induction order generalizing text with
  | nil => exact (marked_false text).symm
  | cons i order ih =>
    rw [List.foldl_cons, ih, rename_position, marked_marked (steady_any steady_opens_position)]
    rfl

/-! ## What is left of the placeholders -/

/-- With letters inserted, a text mentions a name at those of its placeholders that got none. -/
theorem mentions_marked_iff (hname : Steady fun rest => opens name rest) {text : List Char} :
    mentions (marked p text) name = true ↔
      ∃ rest, '{' :: rest <:+ text ∧ p rest = false ∧ opens name rest = true := by
  induction text with
  | nil => exact iff_of_false Bool.false_ne_true not_exists_brace_nil
  | cons c text ih =>
    rw [exists_brace_cons_iff, ← ih]
    by_cases hc : c = '{'
    · subst hc
      cases hp : p text with
      | true =>
        rw [marked_brace_of_true hp, mentions_cons, mentions_cons, hname.letter]
        simp
      | false =>
        rw [marked_brace_of_false hp, mentions_cons, hname.marked]
        simp
    · rw [marked_cons_of_ne hc, mentions_cons, beq_false_of_ne hc]
      simp [hc]

/-! ## All positions at once -/

/-- What is put in the place of the placeholders of the positions below `count`. -/
inductive Renamed (count : Nat) : List Char → List Char → Prop
  | plain {i : Nat} (h : i < count) :
    Renamed count ('{' :: (toString i).toList ++ ['}']) ('{' :: 'f' :: (toString i).toList ++ ['}'])
  | specified {i : Nat} (h : i < count) :
    Renamed count ('{' :: (toString i).toList ++ [':']) ('{' :: 'f' :: (toString i).toList ++ [':'])

/-- The text has a placeholder of the position. -/
def Mentioned (text : List Char) (i : Nat) : Prop := HasPlaceholder text (toString i).toList

instance (text : List Char) (i : Nat) : Decidable (Mentioned text i) :=
  inferInstanceAs (Decidable (HasPlaceholder _ _))

/-- The text opens a position below `count`. -/
def opensBelow (count : Nat) (rest : List Char) : Bool :=
  (List.range count).any fun i => opens (position i) rest

theorem mentions_position_iff {text : List Char} {i : Nat} :
    mentions text (position i) = true ↔ Mentioned text i := by
  rw [mentions_iff, Mentioned, position_eq]

theorem mentions_position (text : List Char) (i : Nat) :
    mentions text (position i) = decide (Mentioned text i) := by
  rw [Bool.eq_iff_iff, decide_eq_true_iff, mentions_position_iff]

theorem opensBelow_iff {count : Nat} {rest : List Char} :
    opensBelow count rest = true ↔ ∃ i < count, opens (position i) rest = true := by
  simp only [opensBelow, List.any_eq_true, List.mem_range]

theorem renamed_iff {count : Nat} {needle new : List Char} :
    Renamed count needle new ↔ ∃ i < count, ∃ stop, (stop = '}' ∨ stop = ':') ∧
      needle = '{' :: (position i ++ [stop]) ∧ new = '{' :: 'f' :: (position i ++ [stop]) := by
  constructor
  · rintro (⟨h⟩ | ⟨h⟩)
    · exact ⟨_, h, '}', .inl rfl, by rw [position_eq]; exact ⟨rfl, rfl⟩⟩
    · exact ⟨_, h, ':', .inr rfl, by rw [position_eq]; exact ⟨rfl, rfl⟩⟩
  · rintro ⟨i, h, stop, rfl | rfl, rfl, rfl⟩
    · rw [position_eq]
      exact .plain h
    · rw [position_eq]
      exact .specified h

/-- An occurrence begins at a brace behind which the text opens a position. -/
theorem exists_renamed_prefix_iff {count : Nat} {c : Char} {text : List Char} :
    (∃ needle new, Renamed count needle new ∧ needle <+: c :: text) ↔
      c = '{' ∧ opensBelow count text = true := by
  rw [opensBelow_iff]
  constructor
  · rintro ⟨needle, new, hpair, later, hlater⟩
    obtain ⟨i, hi, stop, hstop, rfl, rfl⟩ := renamed_iff.1 hpair
    rw [List.cons_append, List.cons.injEq, List.append_assoc] at hlater
    exact ⟨hlater.1.symm, i, hi, opens_iff.2 ⟨stop, later, hstop, hlater.2.symm⟩⟩
  · rintro ⟨rfl, i, hi, hopens⟩
    obtain ⟨stop, later, hstop, rfl⟩ := opens_iff.1 hopens
    exact ⟨_, _, renamed_iff.2 ⟨i, hi, stop, hstop, rfl, rfl⟩, later, by simp⟩

/-- An occurrence is replaced by itself with a letter inserted, and the text behind it is read from
there on. -/
theorem marked_renamed {count : Nat} {needle new : List Char} (h : Renamed count needle new)
    (text : List Char) :
    marked (opensBelow count) (needle ++ text) = new ++ marked (opensBelow count) text := by
  obtain ⟨i, hi, stop, hstop, rfl, rfl⟩ := renamed_iff.1 h
  have hbrace : stop ≠ '{' := by
    rcases hstop with rfl | rfl
    · decide
    · decide
  have hopens : opensBelow count (position i ++ [stop] ++ text) = true :=
    opensBelow_iff.2 ⟨i, hi, opens_iff.2 ⟨stop, text, hstop, List.append_assoc _ _ _⟩⟩
  rw [List.cons_append, marked_brace_of_true hopens,
    marked_append (brace_not_mem_position hbrace i)]
  rfl

/-- To replace all placeholders at once is to insert a letter at each of them. -/
theorem replaced_iff {count : Nat} {text result : List Char} :
    Text.Replaced (Renamed count) text result ↔ result = marked (opensBelow count) text := by
  constructor
  · intro h
    induction h with
    | nil => rfl
    | occurrence hpair hrest ih => rw [ih, marked_renamed hpair]
    | other hnone hrest ih =>
      rw [ih]
      refine (if_neg fun hboth => ?_).symm
      obtain ⟨needle, new, hpair, hbegins⟩ := exists_renamed_prefix_iff.2 hboth
      exact hnone needle new hpair hbegins
  · rintro rfl
    -- An occurrence is passed over as a whole.
    induction hlength : text.length using Nat.strongRecOn generalizing text with
    | ind n ih =>
      cases text with
      | nil => exact .nil
      | cons c text =>
        by_cases hhere : c = '{' ∧ opensBelow count text = true
        · obtain ⟨needle, new, hpair, later, hlater⟩ := exists_renamed_prefix_iff.2 hhere
          have hshorter : later.length < n := by
            obtain ⟨i, -, stop, -, rfl, -⟩ := renamed_iff.1 hpair
            rw [← hlength, ← hlater, List.length_append, List.length_cons]
            omega
          rw [← hlater, marked_renamed hpair]
          exact .occurrence hpair (ih _ hshorter rfl)
        · have hother : marked (opensBelow count) (c :: text) =
              c :: marked (opensBelow count) text := if_neg hhere
          have hshorter : text.length < n := by
            rw [← hlength]
            exact Nat.lt_succ_self _
          rw [hother]
          refine .other (fun needle new hpair hbegins => ?_) (ih _ hshorter rfl)
          exact hhere (exists_renamed_prefix_iff.1 ⟨needle, new, hpair, hbegins⟩)

/-- Positions that a message does not mention need not be renamed, and the others may be in any
order. -/
theorem foldl_rename_of_perm {count : Nat} {order : List Nat} (h : order.Perm (List.range count))
    (text : List Char) :
    (order.filter fun i => Mentioned text i).foldl
        (fun t i => rename t (position i) (binding i)) text = marked (opensBelow count) text := by
  rw [foldl_rename]
  refine marked_congr fun rest hrest => ?_
  rw [Bool.eq_iff_iff, opensBelow_iff, List.any_eq_true]
  constructor
  · rintro ⟨i, hi, hopens⟩
    have hmem : i ∈ List.range count := h.subset (List.mem_filter.1 hi).1
    exact ⟨i, List.mem_range.1 hmem, hopens⟩
  · rintro ⟨i, hi, hopens⟩
    have hmentioned : Mentioned text i :=
      mentions_position_iff.1 (mentions_iff_exists.2 ⟨rest, hrest, hopens⟩)
    have hmem : i ∈ order := h.mem_iff.2 (List.mem_range.2 hi)
    exact ⟨i, List.mem_filter.2 ⟨hmem, decide_eq_true hmentioned⟩, hopens⟩

/-- A text opens one position at most. -/
theorem opens_position_unique {i j : Nat} {rest : List Char} (hi : opens (position i) rest = true)
    (hj : opens (position j) rest = true) : i = j :=
  position_injective (opens_unique (fun _ => ne_stop_of_mem_position)
    (fun _ => ne_stop_of_mem_position) hi hj)

theorem opensBelow_of_le {count i : Nat} {rest : List Char} (h : count ≤ i)
    (hopens : opens (position i) rest = true) : opensBelow count rest = false := by
  refine Bool.eq_false_iff.2 fun hbelow => ?_
  obtain ⟨j, hj, hother⟩ := opensBelow_iff.1 hbelow
  have hij := opens_position_unique hopens hother
  omega

theorem positions_eq (text : List Char) (count : Nat) :
    positions text count = (List.range count).filter fun i => Mentioned text i := by
  simp only [positions, mentions_position]

theorem bindPositions_eq (text : List Char) (count : Nat) :
    bindPositions text count = marked (opensBelow count) text := by
  rw [bindPositions, positions_eq, foldl_rename_of_perm (List.Perm.refl _)]

theorem ofList_binding (i : Nat) : String.ofList (binding i) = "f" ++ toString i := by
  rw [binding, position_eq, String.ofList_cons, String.ofList_toList]
  rfl

/-- **Positions are renamed at once.** The arm of a variant with unnamed fields writes the message
with every placeholder of a position below their number renamed to that of its variable and with
nothing else changed, and renaming the positions it mentions one after the other gives the same text
in any order. None of these positions is mentioned any more; those from the number on are mentioned
as before. The arm binds a field exactly if the message mentions its position, and hands on the
variables that it binds, in order. -/
theorem positions_renamed_at_once (v : Variant) (count : Nat) (message : String)
    (hmessage : v.Carries message) (hfields : v.fields = .tuple count) :
    ∃ bindings format arguments, v.arm = .ok ⟨v.name, .tuple bindings format arguments⟩ ∧
      (∀ result, Text.Replaced (Renamed count) message.toList result ↔ result = format.toList) ∧
      (∀ order : List Nat, order.Perm (List.range count) →
        (order.filter fun i => Mentioned message.toList i).foldl
          (fun text i => rename text (position i) (binding i)) message.toList = format.toList) ∧
      (∀ i < count, ¬ Mentioned format.toList i) ∧
      (∀ i, count ≤ i → (Mentioned format.toList i ↔ Mentioned message.toList i)) ∧
      bindings.length = count ∧
      (∀ i < count, bindings[i]? =
        some (if Mentioned message.toList i then some ("f" ++ toString i) else none)) ∧
      arguments = ((List.range count).filter fun i => Mentioned message.toList i).map
        fun i => ("f" ++ toString i, "f" ++ toString i) := by
  have hformat : (String.ofList (bindPositions message.toList count)).toList =
      marked (opensBelow count) message.toList := by
    rw [String.toList_ofList, bindPositions_eq]
  refine ⟨_, _, _, arm_eq_ok_iff.2 ⟨message, hmessage, by rw [hfields]; rfl⟩, fun result => ?_,
    fun order horder => ?_, fun i hi => ?_, fun i hi => ?_, ?_, fun i hi => ?_, ?_⟩
  · rw [hformat, replaced_iff]
  · rw [hformat, foldl_rename_of_perm horder]
  · rw [hformat, ← mentions_position_iff, mentions_marked_iff (steady_opens_position i)]
    rintro ⟨rest, -, hnone, hopens⟩
    rw [opensBelow_iff.2 ⟨i, hi, hopens⟩] at hnone
    cases hnone
  · rw [hformat, ← mentions_position_iff, ← mentions_position_iff,
      mentions_marked_iff (steady_opens_position i), mentions_iff_exists]
    refine exists_congr fun rest => and_congr_right fun _ => and_iff_right_of_imp fun hopens => ?_
    exact opensBelow_of_le hi hopens
  · rw [List.length_map, List.length_range]
  · rw [List.getElem?_map, List.getElem?_range hi, Option.map_some, mentions_position]
    simp only [decide_eq_true_eq, ofList_binding]
  · rw [positions_eq]
    simp only [ofList_binding]

/-- Position 1 is not taken for the start of 10, and a brace in front of a brace is left alone. The
third field is not mentioned and not bound. Renaming from the last position to the first gives the
same. -/
theorem positions_renamed_at_once_of_ten :
    let message := "\x7b1\x7d \x7b0:?\x7d\x7b0\x7d \x7b\x7b1:\x7d \x7b10\x7d"
    let format := "\x7bf1\x7d \x7bf0:?\x7d\x7bf0\x7d \x7b\x7bf1:\x7d \x7b10\x7d"
    let v : Variant := ⟨"V", [⟨"error", .literal message⟩], .tuple 3⟩
    v.Carries message ∧ v.fields = .tuple 3 ∧
      v.arm = .ok ⟨"V", .tuple [some "f0", some "f1", none] format [("f0", "f0"), ("f1", "f1")]⟩ ∧
      Text.Replaced (Renamed 3) message.toList format.toList ∧
      ([2, 1, 0].filter fun i => Mentioned message.toList i).foldl
        (fun text i => rename text (position i) (binding i)) message.toList = format.toList := by
  intro message format v
  have hcarries : v.Carries message := carries_of_head rfl
  have harm : v.arm =
      .ok ⟨"V", .tuple [some "f0", some "f1", none] format [("f0", "f0"), ("f1", "f1")]⟩ := by
    decide +kernel
  obtain ⟨bindings, format', arguments, harm', hreplaced, horder, -⟩ :=
    positions_renamed_at_once v 3 message hcarries rfl
  rw [harm] at harm'
  cases harm'
  exact ⟨hcarries, rfl, harm, (hreplaced _).2 rfl, horder [2, 1, 0] (by decide)⟩

end ByteMachine.Derive.Template
