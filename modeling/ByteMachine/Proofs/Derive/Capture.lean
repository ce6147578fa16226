import ByteMachine.Proofs.Derive.Renaming

/-!
# Captured formatters

In the derived code every arm writes to a formatter that has a name of its own, and in front of that
it binds the fields that its message mentions. A field without a name is bound to a variable that
ends in a number, which is never the formatter's name. A field with a name is bound to that name,
whatever it is, so a message that mentions a field called like the formatter takes the formatter
away from the arm (`formatter_captured_iff`), and there is no other way to do so.
-/

namespace ByteMachine.Derive

open Template

/-- The formatter's name in the derived code. -/
def formatter : String := "f"

/-- The name is that of the identifier, plain or raw. -/
def SameIdentifier (name identifier : String) : Prop :=
  name = identifier ∨ name = "r#" ++ identifier

/-- The names that the pattern of an arm binds. -/
def Arm.Body.bound : Arm.Body → List String
  | .text _ => []
  | .tuple bindings _ _ => bindings.filterMap id
  | .named bindings _ _ => bindings

/-- The variable of a position has a digit behind its letter. -/
theorem not_sameIdentifier_variable (i : Nat) : ¬ SameIdentifier ("f" ++ toString i) formatter := by
  have hvariable : ("f" ++ toString i).toList = 'f' :: position i := by
    rw [String.toList_append, position_eq]
    rfl
  rintro (h | h)
  · have hlist : 'f' :: position i = ['f'] := by
      rw [← hvariable, h]
      rfl
    exact position_ne_nil i (List.cons.inj hlist).2
  · have hlist : 'f' :: position i = ['r', '#', 'f'] := by
      rw [← hvariable, h]
      rfl
    exact absurd (List.cons.inj hlist).1 (by decide)

/-- The fields that a message mentions are bound, by their variables or by their names. -/
theorem mem_bound_body_iff {fields : Fields} {message name : String} :
    name ∈ (fields.body message).bound ↔
      (∃ count, fields = .tuple count ∧ ∃ i < count, Mentioned message.toList i ∧
        name = "f" ++ toString i) ∨
      ∃ names, fields = .named names ∧ name ∈ names ∧
        HasPlaceholder message.toList name.toList := by
  cases fields with
  | unit =>
    constructor
    · rintro ⟨⟩
    · rintro (⟨_, ⟨⟩, -⟩ | ⟨_, ⟨⟩, -⟩)
  | tuple count =>
    have hbound : name ∈ ((Fields.tuple count).body message).bound ↔
        ∃ i < count, Mentioned message.toList i ∧ name = "f" ++ toString i := by
      simp only [Fields.body, Arm.Body.bound, List.mem_filterMap, List.mem_map, List.mem_range, id,
        mentions_position, ofList_binding, decide_eq_true_eq]
      constructor
      · rintro ⟨binding, ⟨i, hi, rfl⟩, hname⟩
        obtain ⟨hmentioned, heq⟩ := Option.ite_none_right_eq_some.1 hname
        exact ⟨i, hi, hmentioned, (Option.some.inj heq).symm⟩
      · rintro ⟨i, hi, hmentioned, rfl⟩
        exact ⟨_, ⟨i, hi, rfl⟩, if_pos hmentioned⟩
    rw [hbound]
    constructor
    · exact fun h => .inl ⟨count, rfl, h⟩
    · rintro (⟨_, ⟨⟩, h⟩ | ⟨_, ⟨⟩, -⟩)
      exact h
  | named names =>
    have hbound : name ∈ ((Fields.named names).body message).bound ↔
        name ∈ names ∧ mentions message.toList name.toList = true := List.mem_filter
    rw [hbound, mentions_iff]
    constructor
    · rintro ⟨hmem, hplaceholder⟩
      exact .inr ⟨names, rfl, hmem, hplaceholder⟩
    · rintro (⟨_, ⟨⟩, -⟩ | ⟨_, ⟨⟩, hmem, hplaceholder⟩)
      exact ⟨hmem, hplaceholder⟩

/-- **A formatter is captured by a field of its name.** In the code derived from an enum, the arm of
a variant binds the formatter's name exactly if the variant has a field of that name and its message
mentions the field. The variables of fields without names are never in the way. -/
theorem formatter_captured_iff (item : Item) (variants : List Variant) (e : Expansion)
    (hkind : item.kind = .enumeration variants) (he : item.expand = .ok e) :
    List.Forall₂ (fun v arm => ∀ name, SameIdentifier name formatter →
      (name ∈ arm.body.bound ↔ ∃ names message, v.fields = .named names ∧ v.Carries message ∧
        name ∈ names ∧ HasPlaceholder message.toList name.toList)) variants e.arms := by
  refine ((Item.expand_eq_ok_iff hkind).1 he).1.imp fun v arm harm name hname => ?_
  obtain ⟨message, hmessage, rfl⟩ := arm_eq_ok_iff.1 harm
  rw [mem_bound_body_iff]
  constructor
  · rintro (⟨count, -, i, -, -, rfl⟩ | ⟨names, hfields, hmem, hplaceholder⟩)
    · exact absurd hname (not_sameIdentifier_variable i)
    · exact ⟨names, message, hfields, hmessage, hmem, hplaceholder⟩
  · rintro ⟨names, other, hfields, hother, hmem, hplaceholder⟩
    rw [hmessage.unique hother]
    exact .inr ⟨names, hfields, hmem, hplaceholder⟩

/-- Of three variants only the first loses the formatter: the second has no field of that name, and
the third does not mention it. -/
theorem formatter_captured_iff_of_three_variants :
    let taken : Variant := ⟨"A", [⟨"error", .literal "at \x7bf:?\x7d"⟩], .named ["pc", "f"]⟩
    let numbered : Variant := ⟨"B", [⟨"error", .literal "\x7b0\x7d"⟩], .tuple 1⟩
    let silent : Variant := ⟨"C", [⟨"error", .literal "f"⟩], .named ["f"]⟩
    ∃ e, Item.expand ⟨.enumeration [taken, numbered, silent], "E", [], []⟩ = .ok e ∧
      SameIdentifier "f" formatter ∧
      List.Forall₂ (fun v arm => "f" ∈ arm.body.bound ↔ v.name = "A") [taken, numbered, silent]
        e.arms := by
  intro taken numbered silent
  obtain ⟨e, he⟩ :
      ∃ e, Item.expand ⟨.enumeration [taken, numbered, silent], "E", [], []⟩ = .ok e := ⟨_, rfl⟩
  have hall := formatter_captured_iff _ _ e rfl he
  refine ⟨e, he, .inl rfl, ((List.forall₂_and_left (p := (· ∈ [taken, numbered, silent])) _ _).2
    ⟨fun v hv => hv, hall⟩).imp ?_⟩
  rintro v arm ⟨hv, harm⟩
  rw [harm "f" (.inl rfl)]
  rcases List.mem_cons.1 hv with rfl | hv
  · exact iff_of_true ⟨["pc", "f"], _, rfl, carries_of_head rfl, by decide, by decide⟩ rfl
  · rcases List.mem_cons.1 hv with rfl | hv
    · refine iff_of_false ?_ (by decide)
      rintro ⟨names, message, ⟨⟩, -⟩
    · cases List.mem_singleton.1 hv
      refine iff_of_false ?_ (by decide)
      rintro ⟨names, message, -, hmessage, -, hplaceholder⟩
      rw [hmessage.unique (carries_of_head rfl)] at hplaceholder
      revert hplaceholder
      decide

/-- A field may be called like the formatter, and a message that mentions it is accepted. -/
theorem formatter_captured_by_field :
    let v : Variant := ⟨"A", [⟨"error", .literal "\x7bf\x7d"⟩], .named ["f"]⟩
    ∃ e, Item.expand ⟨.enumeration [v], "E", [], []⟩ = .ok e ∧
      ∃ arm ∈ e.arms, formatter ∈ arm.body.bound := by
  intro v
  refine ⟨_, rfl, _, List.mem_singleton.2 rfl, ?_⟩
  decide +kernel

end ByteMachine.Derive
