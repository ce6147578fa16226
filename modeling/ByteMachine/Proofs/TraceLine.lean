import ByteMachine.Proofs.Contents
import ByteMachine.Proofs.Numeral
import ByteMachine.Run

/-!
# What a trace line tells

A trace line shows a machine as words with single blanks between them: the program counter, the three
bytes it points to and the registers, and two bars that keep them apart. Not every word has the same
width (a program counter at the end of memory takes three places), so what a line shows cannot be
told by counting characters. But no word has a blank in it; the line can be taken apart at its blanks
into the words again (`words_traceLine`), and each word is a numeral that can be read back, or the
two dashes of a byte past the end of memory, which are no numeral (`traceByte_eq_dashes_iff`).

So two machines have the same line exactly if everything that a line shows of them is the same. That
the program counter is at most one past the end of memory is not needed for it.
-/

namespace ByteMachine

/-- The words of a line: the texts between its blanks. -/
def words (line : String) : List String := (line.toList.splitOn ' ').map String.ofList

/-- A text without blanks between single blanks is a word. -/
theorem words_intercalate {texts : List String} (hblank : ∀ text ∈ texts, ' ' ∉ text.toList)
    (hne : texts ≠ []) : words (" ".intercalate texts) = texts := by
  have hsplit : (" ".intercalate texts).toList.splitOn ' ' = texts.map String.toList := by
    rw [String.toList_intercalate]
    refine List.splitOn_intercalate ' ' (fun s hs => ?_) (mt List.map_eq_nil_iff.1 hne)
    obtain ⟨text, htext, rfl⟩ := List.mem_map.1 hs
    exact hblank text htext
  rw [words, hsplit, List.map_map]
  exact (List.map_congr_left fun text _ => String.ofList_toList).trans (List.map_id texts)

namespace Numeral

theorem hexPair_injective : Function.Injective hexPair.write :=
  write_injective readable_hexPair

theorem hexByte_injective : Function.Injective hexByte :=
  fun _ _ h => UInt8.toNat_inj.1 (hexPair_injective h)

/-- In two hexadecimal digits or more there is neither a blank nor a dash. -/
theorem not_mem_hexPair {c : Char} (hc : c.isAlphanum = false) (n : Nat) :
    c ∉ (hexPair.write n).toList :=
  not_mem_write readable_hexPair hc n

theorem hexPair_ne_dashes (n : Nat) : hexPair.write n ≠ "--" := by
  intro h
  have := not_mem_hexPair (by decide : '-'.isAlphanum = false) n
  rw [h] at this
  exact this (by decide)

end Numeral

namespace Machine

variable {m m' : Machine} {address : Nat}

/-! ## The words of a trace line -/

/-- The words of a machine's trace line. -/
def traceWords (m : Machine) : List String :=
  ["TRACE:", Numeral.hexPair.write m.pc, "|", m.traceByte m.pc, m.traceByte (m.pc + 1),
    m.traceByte (m.pc + 2), "|"] ++ m.registers.toList.map Numeral.hexByte

theorem traceByte_of_lt (h : address < memorySize) :
    m.traceByte address = Numeral.hexByte m.memory.cells[address] := by
  rw [traceByte, Memory.read_of_lt h]

theorem traceByte_of_le (h : memorySize ≤ address) : m.traceByte address = "--" := by
  rw [traceByte, Memory.read_of_le h]

/-- Dashes stand for a byte exactly if there is none. -/
theorem traceByte_eq_dashes_iff : m.traceByte address = "--" ↔ memorySize ≤ address := by
  constructor
  · intro h
    by_contra hlt
    rw [traceByte_of_lt (Nat.not_le.1 hlt)] at h
    exact Numeral.hexPair_ne_dashes _ h
  · exact traceByte_of_le

/-- Two machines show the same of an address exactly if they hold the same byte there, or there is no
such address. -/
theorem traceByte_eq_iff : m.traceByte address = m'.traceByte address ↔
    (address < memorySize → m.memory.read address = m'.memory.read address) := by
  rcases Nat.lt_or_ge address memorySize with hlt | hge
  · rw [traceByte_of_lt hlt, traceByte_of_lt hlt, Memory.read_of_lt hlt, Memory.read_of_lt hlt,
      Numeral.hexByte_injective.eq_iff, Except.ok.injEq]
    exact ⟨fun h _ => h, fun h => h hlt⟩
  · rw [traceByte_of_le hge, traceByte_of_le hge]
    exact iff_of_true rfl fun hlt => absurd hge (Nat.not_le.2 hlt)

theorem blank_not_mem_traceByte : ' ' ∉ (m.traceByte address).toList := by
  rcases Nat.lt_or_ge address memorySize with hlt | hge
  · rw [traceByte_of_lt hlt]
    exact Numeral.not_mem_hexPair (by decide) _
  · rw [traceByte_of_le hge]
    decide

theorem blank_not_mem_of_mem_traceWords {word : String} (h : word ∈ m.traceWords) :
    ' ' ∉ word.toList := by
  simp only [traceWords, List.mem_append, List.mem_cons, List.mem_map, List.not_mem_nil,
    or_false] at h
  rcases h with (rfl | rfl | rfl | rfl | rfl | rfl | rfl) | ⟨value, -, rfl⟩
  · decide
  · exact Numeral.not_mem_hexPair (by decide) _
  · decide
  · exact blank_not_mem_traceByte
  · exact blank_not_mem_traceByte
  · exact blank_not_mem_traceByte
  · decide
  · exact Numeral.not_mem_hexPair (by decide) _

/-- A trace line is its words with a blank between any two. -/
theorem traceLine_eq_intercalate (m : Machine) :
    m.traceLine = " ".intercalate m.traceWords := by
  -- The second bar has a blank behind it because there is a register to follow.
  obtain ⟨value, values, hregisters⟩ : ∃ value values, m.registers.toList = value :: values :=
    List.exists_cons_of_length_pos (by rw [Registers.toList, Vector.length_toList]; decide)
  have hstart : "TRACE: " = "TRACE:" ++ " " := rfl
  have hbar : " | " = " " ++ "|" ++ " " := rfl
  simp only [traceLine, traceWords, hregisters, hstart, hbar, List.map_cons, List.map_nil,
    List.cons_append, List.nil_append, Nat.add_zero, String.intercalate_cons_cons,
    String.intercalate_singleton, String.append_assoc]

theorem words_traceLine (m : Machine) : words m.traceLine = m.traceWords := by
  rw [traceLine_eq_intercalate]
  exact words_intercalate (fun _ => blank_not_mem_of_mem_traceWords) (List.cons_ne_nil _ _)

/-! ## What can be read off it -/

/-- Only a byte past the end of memory is shown as two dashes. -/
theorem getElem?_traceWords_eq_dashes_iff {i : Nat} :
    m.traceWords[i]? = some "--" ↔ ∃ k < 3, i = 3 + k ∧ memorySize ≤ m.pc + k := by
  constructor
  · intro h
    -- Every other word is the line's name, a bar or a numeral.
    match i with
    | 0 | 2 | 6 => exact absurd (Option.some.inj h) (by decide)
    | 1 => exact absurd (Option.some.inj h) (Numeral.hexPair_ne_dashes m.pc)
    | 3 => exact ⟨0, by decide, rfl, traceByte_eq_dashes_iff.1 (Option.some.inj h)⟩
    | 4 => exact ⟨1, by decide, rfl, traceByte_eq_dashes_iff.1 (Option.some.inj h)⟩
    | 5 => exact ⟨2, by decide, rfl, traceByte_eq_dashes_iff.1 (Option.some.inj h)⟩
    | i + 7 =>
      have hregister : (m.registers.toList.map Numeral.hexByte)[i]? = some "--" := h
      rw [List.getElem?_map, Option.map_eq_some_iff] at hregister
      obtain ⟨value, -, hvalue⟩ := hregister
      exact absurd hvalue (Numeral.hexPair_ne_dashes value.toNat)
  · rintro ⟨k, hk, rfl, hle⟩
    match k with
    | 0 | 1 | 2 => exact congrArg some (traceByte_of_le hle)

/-- The words tell the program counter, the registers and the bytes that there are. -/
theorem traceWords_eq_iff : m.traceWords = m'.traceWords ↔
    m.pc = m'.pc ∧ m.registers = m'.registers ∧
      ∀ k < 3, m.pc + k < memorySize → m.memory.read (m.pc + k) = m'.memory.read (m.pc + k) := by
  have hregisters : m.registers.toList.map Numeral.hexByte =
      m'.registers.toList.map Numeral.hexByte ↔ m.registers = m'.registers := by
    rw [List.map_inj_right fun _ _ h => Numeral.hexByte_injective h]
    constructor
    · intro h
      exact congrArg Registers.mk (Vector.toList_inj.1 h)
    · intro h
      rw [h]
  simp only [traceWords, List.cons_append, List.nil_append, List.cons.injEq, true_and,
    Numeral.hexPair_injective.eq_iff, hregisters]
  constructor
  · rintro ⟨hpc, h₀, h₁, h₂, hr⟩
    rw [← hpc] at h₀ h₁ h₂
    refine ⟨hpc, hr, fun k hk => ?_⟩
    match k with
    | 0 => exact traceByte_eq_iff.1 h₀
    | 1 => exact traceByte_eq_iff.1 h₁
    | 2 => exact traceByte_eq_iff.1 h₂
  · rintro ⟨hpc, hr, hbytes⟩
    rw [← hpc]
    exact ⟨rfl, traceByte_eq_iff.2 (hbytes 0 (by decide)),
      traceByte_eq_iff.2 (hbytes 1 (by decide)), traceByte_eq_iff.2 (hbytes 2 (by decide)), hr⟩

/-- **A trace line can be read back.** Two machines have the same trace line exactly if they have the
same program counter, the same registers, and the same byte at each of the three addresses from the
program counter on that lies in the memory. And of the words of a line, those of these addresses that
lie outside are two dashes, and no other word is. -/
theorem traceLine_reads_back (m m' : Machine) :
    (m.traceLine = m'.traceLine ↔
      m.pc = m'.pc ∧ m.registers = m'.registers ∧
      ∀ k < 3, m.pc + k < memorySize →
        m.memory.read (m.pc + k) = m'.memory.read (m.pc + k)) ∧
    ∀ i, (words m.traceLine)[i]? = some "--" ↔ ∃ k < 3, i = 3 + k ∧ memorySize ≤ m.pc + k := by
  have hwords : m.traceLine = m'.traceLine ↔ m.traceWords = m'.traceWords := by
    constructor
    · intro h
      rw [← words_traceLine, h, words_traceLine]
    · intro h
      rw [traceLine_eq_intercalate, h, traceLine_eq_intercalate]
  refine ⟨hwords.trans traceWords_eq_iff, fun i => ?_⟩
  rw [words_traceLine]
  exact getElem?_traceWords_eq_dashes_iff

/-- At the last address of the memory, one byte is shown and two are not. What the machines hold in
other cells, and whether they have failed, is not shown. -/
theorem traceLine_reads_back_of_last_byte :
    ∃ m m' : Machine, m = { initial with pc := 255 } ∧
      m' = { initial with pc := 255, state := .faulted, memory := initial.memory.withCell 0 1 } ∧
      m.traceLine = "TRACE: FF | 00 -- -- | 00 00 00 00 00 00 00 F4" ∧
      m'.traceLine = "TRACE: FF | 00 -- -- | 00 00 00 00 00 00 00 F4" ∧
      m.memory.read 255 = m'.memory.read 255 ∧
      (words m.traceLine)[3]? ≠ some "--" ∧ (words m.traceLine)[5]? = some "--" := by
  obtain ⟨m, hm⟩ : ∃ m : Machine, m = { initial with pc := 255 } := ⟨_, rfl⟩
  obtain ⟨m', hm'⟩ : ∃ m' : Machine, m' = { initial with
      pc := 255, state := .faulted, memory := initial.memory.withCell 0 1 } := ⟨_, rfl⟩
  have hpc : m.pc = 255 := by rw [hm]
  have hline : m.traceLine = "TRACE: FF | 00 -- -- | 00 00 00 00 00 00 00 F4" := by
    rw [hm]
    decide +kernel
  have hline' : m'.traceLine = "TRACE: FF | 00 -- -- | 00 00 00 00 00 00 00 F4" := by
    rw [hm']
    decide +kernel
  obtain ⟨hread, hdashes⟩ := traceLine_reads_back m m'
  have hbyte := (hread.1 (hline.trans hline'.symm)).2.2 0 (by decide)
  rw [hpc] at hbyte hdashes
  refine ⟨m, m', hm, hm', hline, hline', hbyte (by decide), ?_, ?_⟩
  · rw [ne_eq, hdashes]
    decide
  · exact (hdashes 5).2 ⟨2, by decide, rfl, by decide⟩

end Machine

end ByteMachine
