import ByteMachine.Derive.Expansion
import Mathlib.Data.List.Forall2

/-!
# Refused items

Deriving fails for one reason at a time. Of a variant's attributes only the first whose path is
`error` is looked at (`FirstMessage`), and it carries a message or gives the reason to refuse the
variant (`Variant.Carries`, `Variant.Refused`). Of the variants only the first refused one is heard:
those in front of it have their arms built in vain, and those behind it are not read at all.

Both are searches for a first element, one through `find?` and one through `mapM`, and each is
turned into a cut of its list: what stands in front of the element, the element, and anything behind
it.
-/

namespace ByteMachine.Derive

variable {α β ε : Type} {f : α → Except ε β}

/-- All elements are translated, each into the result at its place. -/
theorem mapM_eq_ok_iff {xs : List α} {ys : List β} :
    xs.mapM f = .ok ys ↔ List.Forall₂ (fun x y => f x = .ok y) xs ys := by
  induction xs generalizing ys with
  | nil =>
    rw [List.mapM_nil, List.forall₂_nil_left_iff]
    exact (Iff.of_eq (Except.ok.injEq _ _)).trans eq_comm
  | cons x xs ih =>
    rw [List.mapM_cons, List.forall₂_cons_left_iff]
    constructor
    · intro h
      cases hx : f x with
      | error reason =>
        rw [hx] at h
        cases h
      | ok y =>
        cases hxs : xs.mapM f with
        | error reason =>
          rw [hx, hxs] at h
          cases h
        | ok rest =>
          rw [hx, hxs] at h
          cases h
          exact ⟨y, rest, rfl, ih.1 hxs, rfl⟩
    · rintro ⟨y, rest, hx, hrest, rfl⟩
      rw [hx, ih.2 hrest]
      rfl

/-- The first element that is not translated decides the error. -/
theorem mapM_eq_error_iff {xs : List α} {reason : ε} :
    xs.mapM f = .error reason ↔ ∃ before x after, xs = before ++ x :: after ∧
      (∀ b ∈ before, ∃ y, f b = .ok y) ∧ f x = .error reason := by
  induction xs with
  | nil =>
    rw [List.mapM_nil]
    constructor
    · rintro ⟨⟩
    · rintro ⟨before, x, after, hparts, -⟩
      exact absurd hparts.symm (List.append_ne_nil_of_right_ne_nil _ (List.cons_ne_nil _ _))
  | cons x xs ih =>
    rw [List.mapM_cons]
    constructor
    · intro h
      cases hx : f x with
      | error first =>
        rw [hx] at h
        cases h
        exact ⟨[], x, xs, rfl, fun b hb => absurd hb List.not_mem_nil, hx⟩
      | ok y =>
        cases hxs : xs.mapM f with
        | ok rest =>
          rw [hx, hxs] at h
          cases h
        | error later =>
          rw [hx, hxs] at h
          cases h
          obtain ⟨before, z, after, rfl, hbefore, hz⟩ := ih.1 hxs
          exact ⟨x :: before, z, after, rfl, List.forall_mem_cons.2 ⟨⟨y, hx⟩, hbefore⟩, hz⟩
    · rintro ⟨before, z, after, hparts, hbefore, hz⟩
      cases before with
      | nil =>
        cases hparts
        rw [hz]
        rfl
      | cons b before =>
        cases hparts
        obtain ⟨⟨y, hb⟩, hbefore⟩ := List.forall_mem_cons.1 hbefore
        rw [hb, ih.2 ⟨before, z, after, rfl, hbefore, hz⟩]
        rfl

/-! ## Messages -/

/-- The attribute is the first of the variant whose path is `error`. -/
def FirstMessage (v : Variant) (a : Attribute) : Prop :=
  ∃ before after, v.attributes = before ++ a :: after ∧ a.path = "error" ∧
    ∀ b ∈ before, b.path ≠ "error"

/-- The variant carries a message. -/
def Variant.Carries (v : Variant) (text : String) : Prop :=
  ∃ a, FirstMessage v a ∧ a.content = .literal text

/-- The variant carries no message, and this is what is said of it. -/
inductive Variant.Refused (v : Variant) : String → Prop
  | missing (h : ∀ a ∈ v.attributes, a.path ≠ "error") :
    Refused v ("variant `" ++ v.name ++ "` is missing an #[error(\"...\")] message")
  | noList {a : Attribute} (h : FirstMessage v a)
      (hcontent : a.content = .bare ∨ a.content = .nameValue) :
    Refused v "expected #[error(\"message\")]"
  | noLiteral {a : Attribute} (h : FirstMessage v a) (hcontent : a.content = .tokens) :
    Refused v
      "#[error] takes a single string literal, e.g. #[error(\"unknown opcode \x7bopcode\x7d\")]"

variable {v : Variant} {a : Attribute} {text : String}

theorem firstMessage_iff :
    v.attributes.find? (·.path == "error") = some a ↔ FirstMessage v a := by
  rw [List.find?_eq_some_iff_append]
  constructor
  · rintro ⟨hpath, before, after, hparts, hbefore⟩
    refine ⟨before, after, hparts, eq_of_beq hpath, fun b hb heq => ?_⟩
    have := hbefore b hb
    rw [heq] at this
    cases this
  · rintro ⟨before, after, hparts, hpath, hbefore⟩
    refine ⟨beq_of_eq hpath, before, after, hparts, fun b hb => ?_⟩
    rw [beq_false_of_ne (hbefore b hb)]
    rfl

theorem message_of_carries (h : v.Carries text) : v.message = .ok text := by
  obtain ⟨a, ha, hcontent⟩ := h
  unfold Variant.message
  simp only [firstMessage_iff.2 ha, hcontent]

theorem carries_of_head {rest : List Attribute}
    (h : v.attributes = ⟨"error", .literal text⟩ :: rest) : v.Carries text :=
  ⟨_, ⟨[], rest, h, rfl, fun _ hb => absurd hb List.not_mem_nil⟩, rfl⟩

/-- A variant carries one message at most. -/
theorem Variant.Carries.unique {other : String} (h : v.Carries text) (h' : v.Carries other) :
    text = other :=
  Except.ok.inj ((message_of_carries h).symm.trans (message_of_carries h'))

theorem message_of_refused {said : String} (h : v.Refused said) :
    ∃ reason, v.message = .error reason ∧ reason.message = said := by
  unfold Variant.message
  cases h with
  | missing h =>
    have hnone : v.attributes.find? (·.path == "error") = none :=
      List.find?_eq_none.2 fun a ha hpath => h a ha (eq_of_beq hpath)
    exact ⟨.missingMessage v.name, by simp only [hnone], rfl⟩
  | noList ha hcontent =>
    rcases hcontent with hcontent | hcontent
    · exact ⟨.noList, by simp only [firstMessage_iff.2 ha, hcontent], rfl⟩
    · exact ⟨.noList, by simp only [firstMessage_iff.2 ha, hcontent], rfl⟩
  | noLiteral ha hcontent =>
    exact ⟨.noLiteral, by simp only [firstMessage_iff.2 ha, hcontent], rfl⟩

/-- No variant is left over: its first attribute is there or not, and is of one of four forms. -/
theorem carries_or_refused (v : Variant) : (∃ text, v.Carries text) ∨ ∃ said, v.Refused said := by
  cases hfirst : v.attributes.find? (·.path == "error") with
  | none =>
    exact .inr ⟨_, .missing fun a ha hpath => List.find?_eq_none.1 hfirst a ha (beq_of_eq hpath)⟩
  | some a =>
    have ha := firstMessage_iff.1 hfirst
    cases hcontent : a.content with
    | literal text => exact .inl ⟨text, a, ha, hcontent⟩
    | tokens => exact .inr ⟨_, .noLiteral ha hcontent⟩
    | bare => exact .inr ⟨_, .noList ha (.inl hcontent)⟩
    | nameValue => exact .inr ⟨_, .noList ha (.inr hcontent)⟩

theorem message_eq_ok_iff : v.message = .ok text ↔ v.Carries text := by
  constructor
  · intro h
    rcases carries_or_refused v with ⟨other, hother⟩ | ⟨said, hsaid⟩
    · have := h.symm.trans (message_of_carries hother)
      cases this
      exact hother
    · obtain ⟨reason, hreason, -⟩ := message_of_refused hsaid
      rw [hreason] at h
      cases h
  · exact message_of_carries

theorem message_eq_error_iff {said : String} :
    (∃ reason, v.message = .error reason ∧ reason.message = said) ↔ v.Refused said := by
  constructor
  · rintro ⟨reason, h, rfl⟩
    rcases carries_or_refused v with ⟨text, htext⟩ | ⟨other, hother⟩
    · rw [message_of_carries htext] at h
      cases h
    · obtain ⟨reason', hreason, rfl⟩ := message_of_refused hother
      rw [hreason] at h
      cases h
      exact hother
  · exact message_of_refused

/-! ## Arms -/

/-- Building an arm fails only for want of a message. -/
theorem arm_eq_ok_iff {arm : Arm} :
    v.arm = .ok arm ↔ ∃ text, v.Carries text ∧ arm = ⟨v.name, v.fields.body text⟩ := by
  unfold Variant.arm
  constructor
  · intro h
    cases hmessage : v.message with
    | error reason =>
      rw [hmessage] at h
      cases h
    | ok text =>
      rw [hmessage] at h
      cases h
      exact ⟨text, message_eq_ok_iff.1 hmessage, rfl⟩
  · rintro ⟨text, htext, rfl⟩
    rw [message_of_carries htext]
    rfl

theorem exists_arm_iff : (∃ arm, v.arm = .ok arm) ↔ ∃ text, v.Carries text := by
  constructor
  · rintro ⟨arm, harm⟩
    obtain ⟨text, htext, -⟩ := arm_eq_ok_iff.1 harm
    exact ⟨text, htext⟩
  · rintro ⟨text, htext⟩
    exact ⟨_, arm_eq_ok_iff.2 ⟨text, htext, rfl⟩⟩

theorem arm_eq_error_iff {reason : DeriveError} :
    v.arm = .error reason ↔ v.message = .error reason := by
  unfold Variant.arm
  cases v.message with
  | error other =>
    constructor
    · rintro ⟨⟩
      rfl
    · rintro ⟨⟩
      rfl
  | ok text =>
    constructor
    · rintro ⟨⟩
    · rintro ⟨⟩

namespace Item

variable {item : Item} {variants : List Variant}

/-- The text of the error with which an item is refused. -/
def refusal? (item : Item) : Option String :=
  match item.expand with
  | .ok _ => none
  | .error reason => some reason.message

theorem refusal?_eq_some_iff {said : String} :
    item.refusal? = some said ↔ ∃ reason, item.expand = .error reason ∧ reason.message = said := by
  unfold refusal?
  cases item.expand with
  | ok e =>
    constructor
    · rintro ⟨⟩
    · rintro ⟨reason, h, -⟩
      cases h
  | error reason =>
    constructor
    · rintro ⟨⟩
      exact ⟨reason, rfl, rfl⟩
    · rintro ⟨other, h, rfl⟩
      cases h
      rfl

/-- An enum's expansion has the arms of its variants, in order. -/
theorem expand_eq_ok_iff (hkind : item.kind = .enumeration variants) {e : Expansion} :
    item.expand = .ok e ↔ List.Forall₂ (fun v arm => v.arm = .ok arm) variants e.arms ∧
      e.display = item.header ":: std :: fmt :: Display" ∧
      e.error = item.header ":: std :: error :: Error" := by
  rw [← mapM_eq_ok_iff]
  unfold expand
  rw [hkind]
  constructor
  · intro h
    cases harms : variants.mapM Variant.arm with
    | error reason =>
      simp only [harms] at h
      cases h
    | ok arms =>
      simp only [harms] at h
      cases h
      exact ⟨rfl, rfl, rfl⟩
  · rintro ⟨harms, hdisplay, herror⟩
    obtain ⟨display, arms, error⟩ := e
    cases hdisplay
    cases herror
    simp only [harms]
    rfl

theorem expand_eq_error_iff (hkind : item.kind = .enumeration variants) {reason : DeriveError} :
    item.expand = .error reason ↔ ∃ before v after, variants = before ++ v :: after ∧
      (∀ u ∈ before, ∃ arm, u.arm = .ok arm) ∧ v.arm = .error reason := by
  rw [← mapM_eq_error_iff]
  unfold expand
  rw [hkind]
  cases harms : variants.mapM Variant.arm with
  | error other =>
    simp only [harms]
    constructor
    · rintro ⟨⟩
      rfl
    · rintro ⟨⟩
      rfl
  | ok arms =>
    simp only [harms]
    constructor
    · rintro ⟨⟩
    · rintro ⟨⟩

theorem refusal?_of_not_enumeration (hkind : item.kind = .record ∨ item.kind = .union) :
    item.refusal? = some "Error can only be derived for enums" := by
  have hnotEnum : item.expand = .error .notEnum := by
    unfold expand
    rcases hkind with hkind | hkind
    · rw [hkind]
    · rw [hkind]
  exact refusal?_eq_some_iff.2 ⟨.notEnum, hnotEnum, rfl⟩

theorem exists_expand_iff (hkind : item.kind = .enumeration variants) :
    (∃ e, item.expand = .ok e) ↔ ∀ v ∈ variants, ∃ text, v.Carries text := by
  constructor
  · rintro ⟨e, he⟩
    have harms : List.Forall₂ (fun v arm => (∃ text, v.Carries text) ∧ v.arm = .ok arm)
        variants e.arms :=
      ((expand_eq_ok_iff hkind).1 he).1.imp fun v arm harm => ⟨exists_arm_iff.1 ⟨arm, harm⟩, harm⟩
    exact ((List.forall₂_and_left variants e.arms).1 harms).1
  · intro hall
    cases he : item.expand with
    | ok e => exact ⟨e, rfl⟩
    | error reason =>
      obtain ⟨before, v, after, rfl, -, hv⟩ := (expand_eq_error_iff hkind).1 he
      obtain ⟨arm, harm⟩ := exists_arm_iff.2 (hall v (List.mem_append_right _ List.mem_cons_self))
      rw [harm] at hv
      cases hv

theorem refusal?_enumeration_eq_some_iff (hkind : item.kind = .enumeration variants)
    {said : String} :
    item.refusal? = some said ↔ ∃ before v after, variants = before ++ v :: after ∧
      (∀ u ∈ before, ∃ text, u.Carries text) ∧ v.Refused said := by
  rw [refusal?_eq_some_iff]
  constructor
  · rintro ⟨reason, he, hsaid⟩
    obtain ⟨before, v, after, hparts, hbefore, hv⟩ := (expand_eq_error_iff hkind).1 he
    exact ⟨before, v, after, hparts, fun u hu => exists_arm_iff.1 (hbefore u hu),
      message_eq_error_iff.1 ⟨reason, arm_eq_error_iff.1 hv, hsaid⟩⟩
  · rintro ⟨before, v, after, hparts, hbefore, hv⟩
    obtain ⟨reason, hreason, hsaid⟩ := message_eq_error_iff.2 hv
    exact ⟨reason, (expand_eq_error_iff hkind).2 ⟨before, v, after, hparts,
      fun u hu => exists_arm_iff.2 (hbefore u hu), arm_eq_error_iff.2 hreason⟩, hsaid⟩

/-- **The first offender decides.** A record or a union is refused for being no enum. An enum is
refused exactly if one of its variants does not carry a message, and what is said then is said of
the first such variant, whatever its attributes behind the first one for messages are and whatever
the variants behind it are. Otherwise each variant has its arm, in the order of declaration. -/
theorem first_offender_refuses (item : Item) :
    (item.kind = .record ∨ item.kind = .union →
      item.refusal? = some "Error can only be derived for enums") ∧
    ∀ variants, item.kind = .enumeration variants →
      ((∃ e, item.expand = .ok e) ↔ ∀ v ∈ variants, ∃ text, v.Carries text) ∧
      (∀ e, item.expand = .ok e →
        List.Forall₂ (fun v arm => arm.variant = v.name ∧
          ∃ text, v.Carries text ∧ arm.body = v.fields.body text) variants e.arms) ∧
      ∀ said, item.refusal? = some said ↔ ∃ before v after, variants = before ++ v :: after ∧
        (∀ u ∈ before, ∃ text, u.Carries text) ∧ v.Refused said := by
  refine ⟨refusal?_of_not_enumeration, fun variants hkind =>
    ⟨exists_expand_iff hkind, fun e he => ?_, fun said => refusal?_enumeration_eq_some_iff hkind⟩⟩
  refine ((expand_eq_ok_iff hkind).1 he).1.imp fun v arm harm => ?_
  obtain ⟨text, htext, rfl⟩ := arm_eq_ok_iff.1 harm
  exact ⟨rfl, text, htext, rfl⟩

/-- A second attribute for messages is not looked at, in the variant in front or in the offender: a
bare path comes first there. The last variant, which has no such attribute, is not read. -/
theorem first_offender_refuses_of_bare_path :
    let said : Variant :=
      ⟨"A", [⟨"doc", .nameValue⟩, ⟨"error", .literal "a"⟩, ⟨"error", .bare⟩], .unit⟩
    let bare : Variant := ⟨"B", [⟨"error", .bare⟩, ⟨"error", .literal "b"⟩], .tuple 1⟩
    let silent : Variant := ⟨"C", [⟨"r#error", .literal "c"⟩], .unit⟩
    (∃ e, Item.expand ⟨.enumeration [said], "E", [], []⟩ = .ok e) ∧
      Item.refusal? ⟨.enumeration [said, bare, silent], "E", [], []⟩ =
        some "expected #[error(\"message\")]" ∧
      Item.refusal? ⟨.enumeration [said, silent, bare], "E", [], []⟩ =
        some "variant `C` is missing an #[error(\"...\")] message" ∧
      Item.refusal? ⟨.union, "E", [], []⟩ = some "Error can only be derived for enums" := by
  intro said bare silent
  have hsaid : said.Carries "a" := by
    refine ⟨⟨"error", .literal "a"⟩, ⟨[⟨"doc", .nameValue⟩], [⟨"error", .bare⟩], rfl, rfl, ?_⟩, rfl⟩
    exact List.forall_mem_singleton.2 (by decide)
  have hbare : bare.Refused "expected #[error(\"message\")]" :=
    .noList ⟨[], [⟨"error", .literal "b"⟩], rfl, rfl, fun b hb => absurd hb List.not_mem_nil⟩
      (.inl rfl)
  have hsilent : silent.Refused "variant `C` is missing an #[error(\"...\")] message" :=
    .missing (List.forall_mem_singleton.2 (by decide))
  have hbefore : ∀ u ∈ [said], ∃ text, u.Carries text := List.forall_mem_singleton.2 ⟨"a", hsaid⟩
  refine ⟨?_, ?_, ?_, ?_⟩
  · exact ((first_offender_refuses ⟨.enumeration [said], "E", [], []⟩).2 _ rfl).1.2 hbefore
  · obtain ⟨-, -, hrefused⟩ :=
      (first_offender_refuses ⟨.enumeration [said, bare, silent], "E", [], []⟩).2 _ rfl
    exact (hrefused _).2 ⟨[said], bare, [silent], rfl, hbefore, hbare⟩
  · obtain ⟨-, -, hrefused⟩ :=
      (first_offender_refuses ⟨.enumeration [said, silent, bare], "E", [], []⟩).2 _ rfl
    exact (hrefused _).2 ⟨[said], silent, [bare], rfl, hbefore, hsilent⟩
  · exact (first_offender_refuses ⟨.union, "E", [], []⟩).1 (.inr rfl)

end Item

end ByteMachine.Derive
