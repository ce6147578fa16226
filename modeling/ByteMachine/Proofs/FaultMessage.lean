import ByteMachine.Fault
import ByteMachine.Proofs.Numeral

/-!
# What the message of a fault tells

The message of a fault begins with words that depend on the kind of the fault alone (`heading`), and
its numbers follow, each in a style of its own and set apart by more words (`details`). No heading
begins another one (`headings_prefixFree`), so two messages that are equal have the same heading. And
a numeral has only digits and letters, so it ends where the next blank or bracket stands, however
large its number is. So a message can be read from the front to the back, and there is one fault that
it can be of. The name of an instruction may be any text, also one with blanks and brackets: it stands
at the end of its message.
-/

namespace ByteMachine

namespace Fault

open Numeral

/-- The words at the beginning of a message. -/
def heading : Fault → String
  | unknownOpcode .. => "unknown opcode "
  | unsupportedOperation _ => "unsupported ALU operation "
  | addressOutOfBounds .. => "address "
  | invalidRegister .. => "register index "
  | stackOverflow _ => "stack overflow: cannot push with sp at "
  | stackUnderflow _ => "stack underflow: cannot pop with sp at "
  | programTooLarge .. => "program of "

/-- What follows them. -/
def details : Fault → String
  | unknownOpcode opcode pc => bits.write opcode.toNat ++ (" at pc " ++ location.write pc)
  | unsupportedOperation mnemonic => mnemonic
  | addressOutOfBounds address size =>
    Numeral.address.write address ++ (" out of bounds (memory size " ++
      (Numeral.decimal.write size ++ ")"))
  | invalidRegister index available =>
    Numeral.decimal.write index.toNat ++ (" out of bounds (" ++
      (Numeral.decimal.write available ++ " registers)"))
  | stackOverflow sp | stackUnderflow sp => location.write sp.toNat
  | programTooLarge length size =>
    Numeral.decimal.write length ++ (" bytes does not fit in " ++
      (Numeral.decimal.write size ++ " bytes of memory"))

theorem message_eq (f : Fault) : f.message = f.heading ++ f.details := by
  unfold message heading details decimal
  cases f with
  | unsupportedOperation | stackOverflow | stackUnderflow => rfl
  | unknownOpcode | addressOutOfBounds | invalidRegister | programTooLarge =>
    simp only [String.append_assoc]

/-! ## The kind of a fault -/

/-- All headings. -/
def headings : List String :=
  ["unknown opcode ", "unsupported ALU operation ", "address ", "register index ",
    "stack overflow: cannot push with sp at ", "stack underflow: cannot pop with sp at ",
    "program of "]

theorem heading_mem_headings (f : Fault) : f.heading ∈ headings := by
  unfold heading headings
  cases f with
  | unknownOpcode | unsupportedOperation | addressOutOfBounds | invalidRegister | stackOverflow
  | stackUnderflow | programTooLarge => simp only [List.mem_cons, true_or, or_true]

theorem headings_prefixFree : ∀ a ∈ headings, ∀ b ∈ headings, a.toList <+: b.toList → a = b := by
  decide

/-- Messages that are equal begin with the same heading. -/
theorem heading_eq_of_message_eq {f g : Fault} (h : f.message = g.message) :
    f.heading = g.heading := by
  rw [message_eq, message_eq] at h
  have hf : f.heading.toList <+: (f.heading ++ f.details).toList :=
    ⟨f.details.toList, String.toList_append.symm⟩
  have hg : g.heading.toList <+: (f.heading ++ f.details).toList :=
    ⟨g.details.toList, by rw [h, String.toList_append]⟩
  have hmem := heading_mem_headings f
  have hmem' := heading_mem_headings g
  rcases List.prefix_or_prefix_of_prefix hf hg with hfg | hgf
  · exact headings_prefixFree _ hmem _ hmem' hfg
  · exact (headings_prefixFree _ hmem' _ hmem hgf).symm

/-! ## The numbers of a fault -/

/-- Of faults with the same heading, the details tell which it is. -/
theorem eq_of_details_eq {f g : Fault} (hheading : f.heading = g.heading)
    (hdetails : f.details = g.details) : f = g := by
  cases f with
  | unknownOpcode opcode pc =>
    cases g with
    | unknownOpcode opcode' pc' =>
      obtain ⟨hopcode, hrest⟩ :=
        write_append_inj readable_bits ⟨' ', _, rfl, rfl⟩ hdetails
      obtain rfl := UInt8.toNat_inj.1 hopcode
      obtain rfl := write_injective readable_location hrest
      rfl
    | _ => simp [heading] at hheading
  | unsupportedOperation mnemonic =>
    cases g with
    | unsupportedOperation mnemonic' => exact congrArg unsupportedOperation hdetails
    | _ => simp [heading] at hheading
  | addressOutOfBounds address size =>
    cases g with
    | addressOutOfBounds address' size' =>
      obtain ⟨rfl, hrest⟩ :=
        write_append_inj readable_address ⟨' ', _, rfl, rfl⟩ hdetails
      obtain rfl := write_injective readable_decimal ((String.append_left_inj _).1 hrest)
      rfl
    | _ => simp [heading] at hheading
  | invalidRegister index available =>
    cases g with
    | invalidRegister index' available' =>
      obtain ⟨hindex, hrest⟩ :=
        write_append_inj readable_decimal ⟨' ', _, rfl, rfl⟩ hdetails
      obtain rfl := UInt8.toNat_inj.1 hindex
      obtain rfl := write_injective readable_decimal ((String.append_left_inj _).1 hrest)
      rfl
    | _ => simp [heading] at hheading
  | stackOverflow sp =>
    cases g with
    | stackOverflow sp' =>
      obtain rfl := UInt8.toNat_inj.1 (write_injective readable_location hdetails)
      rfl
    | _ => simp [heading] at hheading
  | stackUnderflow sp =>
    cases g with
    | stackUnderflow sp' =>
      obtain rfl := UInt8.toNat_inj.1 (write_injective readable_location hdetails)
      rfl
    | _ => simp [heading] at hheading
  | programTooLarge length size =>
    cases g with
    | programTooLarge length' size' =>
      obtain ⟨rfl, hrest⟩ :=
        write_append_inj readable_decimal ⟨' ', _, rfl, rfl⟩ hdetails
      obtain rfl := write_injective readable_decimal ((String.append_left_inj _).1 hrest)
      rfl
    | _ => simp [heading] at hheading

/-- **A message tells its fault.** Two faults have the same message exactly if they are of the same
kind and agree in everything that they carry, numbers of any size and names of any text. -/
theorem message_eq_iff (f g : Fault) : f.message = g.message ↔ f = g := by
  constructor
  · intro h
    have hheading := heading_eq_of_message_eq h
    rw [message_eq, message_eq, hheading] at h
    exact eq_of_details_eq hheading ((String.append_right_inj _).1 h)
  · rintro rfl
    rfl

end Fault

end ByteMachine
