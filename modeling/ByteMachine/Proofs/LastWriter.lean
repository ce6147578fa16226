import ByteMachine.Proofs.Contents
import Mathlib.Data.List.Induction

/-!
# Memory as a store of last writers

Memory is an array of cells, and a load copies bytes over many of them at once. Seen from outside it
is simpler: an address holds the byte that the latest access to cover it has given it, be that a write
to the address or a load that reached it, and zero as long as there was none. What a longer load has
left behind a shorter one, and which accesses failed in between, is then no matter of cells.

A history is a list with its latest member at the end. Some of its members settle a matter and the
others leave it alone; how it stands in the end is how the latest of those that settle it has left it
(`latest`). `Access.given?` says what one access gives to an address, and `Access.answer` what an
access is answered after others, both without a memory. Over one access an address keeps its byte or
takes the one it is given (`read_perform`); from the empty memory on, over any number of them, that
makes it the latest one (`read_after`). An access that fails gives nothing to any address, and the
memory it leaves is the memory it found (`perform_of_fails`).
-/

namespace ByteMachine

/-! ## The latest word on a matter -/

section Latest

variable {α β : Type}

/-- How the latest member of a history to settle a matter has left it, if any does. -/
def latest (settles : α → Option β) (history : List α) : Option β :=
  history.reverse.findSome? settles

@[simp] theorem latest_nil (settles : α → Option β) : latest settles [] = none := rfl

/-- The last member comes first, and where it leaves the matter alone, those before it count. -/
@[simp] theorem latest_concat (settles : α → Option β) (history : List α) (a : α) :
    latest settles (history ++ [a]) = (settles a).or (latest settles history) := by
  rw [latest, List.reverse_append, List.reverse_singleton, List.singleton_append,
    List.findSome?_cons]
  cases settles a with
  | none => rfl
  | some b => rfl

end Latest

namespace Memory

namespace Access

/-- The access asks for more than there is: an address outside the memory, or room for too many
bytes. -/
def Fails : Access → Prop
  | read address | write address _ => 256 ≤ address
  | load bytes => 256 < bytes.length

instance : DecidablePred Fails
  | read address | write address _ => inferInstanceAs (Decidable (256 ≤ address))
  | load bytes => inferInstanceAs (Decidable (256 < bytes.length))

/-- The byte that an access gives to an address, if it covers the address. A load that does not fit
covers none. -/
def given? (address : Nat) : Access → Option UInt8
  | read _ => none
  | write target value => if target = address then some value else none
  | load bytes => if bytes.length ≤ 256 then bytes[address]? else none

/-- What an access is answered after earlier ones. -/
def answer (earlier : List Access) : Access → Except Fault (Option UInt8)
  | read address =>
    if address < 256 then .ok (some ((latest (given? address) earlier).getD 0))
    else .error (.addressOutOfBounds address 256)
  | write address _ =>
    if address < 256 then .ok none else .error (.addressOutOfBounds address 256)
  | load bytes =>
    if bytes.length ≤ 256 then .ok none else .error (.programTooLarge bytes.length 256)

end Access

/-- The memory after accesses in a row. -/
def after (m : Memory) (accesses : List Access) : Memory :=
  accesses.foldl (fun m access => (m.perform access).2) m

/-- The answers to accesses in a row, in order. -/
def answers (m : Memory) : List Access → List (Except Fault (Option UInt8))
  | [] => []
  | access :: rest => (m.perform access).1 :: (m.perform access).2.answers rest

variable {m : Memory} {access : Access} {address : Nat} {value : UInt8} {bytes : List UInt8}

/-! ## One access -/

theorem write_of_lt (h : address < 256) : ∃ m', m.write address value = .ok m' := ⟨_, dif_pos h⟩

theorem write_of_le (h : 256 ≤ address) :
    m.write address value = .error (.addressOutOfBounds address 256) :=
  dif_neg (Nat.not_lt.2 h)

theorem load_of_le (h : bytes.length ≤ 256) : ∃ m', m.load bytes = .ok m' := ⟨_, if_pos h⟩

theorem load_of_lt (h : 256 < bytes.length) :
    m.load bytes = .error (.programTooLarge bytes.length 256) :=
  if_neg (Nat.not_le.2 h)

/-- An access that fails leaves the memory as it was. -/
theorem perform_of_fails (h : access.Fails) : (m.perform access).2 = m := by
  cases access with
  | read target => rfl
  | write target value => rw [perform, write_of_le h]
  | load bytes => rw [perform, load_of_lt h]

/-- Over an access, an address takes the byte that it is given or else keeps its own. -/
theorem read_perform {byte : UInt8} (h : m.read address = .ok byte) (access : Access) :
    (m.perform access).2.read address = .ok ((access.given? address).getD byte) := by
  have haddress : address < 256 := lt_of_read_eq_ok h
  by_cases hfails : access.Fails
  · have hnone : access.given? address = none := by
      cases access with
      | read target => rfl
      | write target value =>
        have hle : 256 ≤ target := hfails
        exact if_neg (by omega)
      | load bytes => exact if_neg (Nat.not_le.2 hfails)
    rw [perform_of_fails hfails, h, hnone]
    rfl
  · cases access with
    | read target => exact h
    | write target value =>
      obtain ⟨m', hwrite⟩ : ∃ m', m.write target value = .ok m' :=
        write_of_lt (Nat.not_le.1 hfails)
      rw [perform, hwrite, Access.given?]
      by_cases heq : target = address
      · subst heq
        rw [if_pos rfl]
        exact read_write_self hwrite
      · rw [if_neg heq]
        exact (read_write_of_ne hwrite (Ne.symm heq)).trans h
    | load bytes =>
      have hle : bytes.length ≤ 256 := Nat.not_lt.1 hfails
      obtain ⟨m', hload⟩ : ∃ m', m.load bytes = .ok m' := load_of_le hle
      have hbyte : m.cells[address] = byte := Except.ok.inj ((read_of_lt haddress).symm.trans h)
      rw [perform, hload, Access.given?, if_pos hle, ← hbyte]
      exact read_load hload haddress

/-! ## Accesses in a row -/

theorem after_append (m : Memory) (earlier later : List Access) :
    m.after (earlier ++ later) = (m.after earlier).after later :=
  List.foldl_append

theorem answers_append (m : Memory) (earlier later : List Access) :
    m.answers (earlier ++ later) = m.answers earlier ++ (m.after earlier).answers later := by
  induction earlier generalizing m with
  | nil => rfl
  | cons access rest ih => exact congrArg _ (ih _)

theorem length_answers (m : Memory) (accesses : List Access) :
    (m.answers accesses).length = accesses.length := by
  induction accesses generalizing m with
  | nil => rfl
  | cons access rest ih => exact congrArg _ (ih _)

/-- From the empty memory on, an address holds the byte that it was given last. -/
theorem read_after (accesses : List Access) (h : address < 256) :
    (empty.after accesses).read address =
      .ok ((latest (Access.given? address) accesses).getD 0) := by
  induction accesses using List.reverseRecOn with
  | nil =>
    show empty.read address = .ok 0
    rw [read_of_lt h]
    exact congrArg _ (Vector.getElem_replicate h)
  | append_singleton earlier access ih =>
    rw [after_append, latest_concat]
    refine (read_perform ih access).trans ?_
    cases access.given? address with
    | none => rfl
    | some byte => rfl

/-- An access is answered as the accesses before it have it. -/
theorem perform_after (earlier : List Access) (access : Access) :
    ((empty.after earlier).perform access).1 = access.answer earlier := by
  cases access with
  | read address =>
    show ((empty.after earlier).read address).map some = _
    rw [Access.answer]
    by_cases hlt : address < 256
    · rw [read_after earlier hlt, if_pos hlt]
      rfl
    · rw [read_of_le (Nat.not_lt.1 hlt), if_neg hlt]
      rfl
  | write address value =>
    rw [perform, Access.answer]
    by_cases hlt : address < 256
    · obtain ⟨m', hwrite⟩ : ∃ m', (empty.after earlier).write address value = .ok m' :=
        write_of_lt hlt
      rw [hwrite, if_pos hlt]
    · rw [write_of_le (Nat.not_lt.1 hlt), if_neg hlt]
  | load bytes =>
    rw [perform, Access.answer]
    by_cases hle : bytes.length ≤ 256
    · obtain ⟨m', hload⟩ : ∃ m', (empty.after earlier).load bytes = .ok m' := load_of_le hle
      rw [hload, if_pos hle]
    · rw [load_of_lt (Nat.not_le.1 hle), if_neg hle]

theorem answers_eq (accesses : List Access) :
    empty.answers accesses = accesses.mapIdx fun i access => access.answer (accesses.take i) := by
  induction accesses using List.reverseRecOn with
  | nil => rfl
  | append_singleton earlier access ih =>
    -- An access in front of the last one has the same accesses before it.
    have hearlier : (earlier.mapIdx fun i a => a.answer ((earlier ++ [access]).take i)) =
        earlier.mapIdx fun i a => a.answer (earlier.take i) := by
      refine List.mapIdx_eq_mapIdx_iff.2 fun i hi => ?_
      rw [List.take_append_of_le_length (Nat.le_of_lt hi)]
    rw [answers_append, ih, List.mapIdx_concat, hearlier, List.take_left]
    exact congrArg (_ ++ [·]) (perform_after earlier access)

/-- Without an access that fails, all others are answered the same. -/
theorem answers_of_fails {failing : Access} (h : failing.Fails) (earlier later : List Access) :
    empty.answers (earlier ++ later) =
      (empty.answers (earlier ++ failing :: later)).eraseIdx earlier.length := by
  have hlength := length_answers empty earlier
  rw [answers_append, answers_append, ← hlength, List.eraseIdx_append_of_length_le (Nat.le_refl _),
    Nat.sub_self, answers, List.eraseIdx_cons_zero, perform_of_fails h]

/-- **Memory is a store of last writers.** Let any accesses be made to the empty memory, with any
addresses, values and byte lists. Each read of an address inside is answered with the byte that the
latest access to cover the address has given it, or with zero if there was none; each read or write
outside, and each load of more than 256 bytes, is answered with its fault; and the others are done.
An access that fails might as well not have been made: all others are answered the same without it. -/
theorem memory_is_last_writer_store (accesses : List Access) :
    empty.answers accesses =
      accesses.mapIdx (fun i access => access.answer (accesses.take i)) ∧
    ∀ earlier failing later, accesses = earlier ++ failing :: later → failing.Fails →
      empty.answers (earlier ++ later) = (empty.answers accesses).eraseIdx earlier.length := by
  refine ⟨answers_eq accesses, ?_⟩
  rintro earlier failing later rfl hfails
  exact answers_of_fails hfails earlier later

/-- A load of three bytes, a write to the second and a shorter load: the first address has the byte of
the shorter load, the second that of the write, and the third what the longer load has left. The write
one past the end does not show. -/
theorem memory_is_last_writer_store_of_overlap :
    (Access.write 256 5).Fails ∧
    empty.answers [.load [1, 2, 3], .write 1 9, .load [7], .write 256 5, .read 0, .read 1, .read 2,
        .read 3] =
      [.ok none, .ok none, .ok none, .error (.addressOutOfBounds 256 256), .ok (some 7),
        .ok (some 9), .ok (some 3), .ok (some 0)] ∧
    empty.answers [.load [1, 2, 3], .write 1 9, .load [7], .read 0, .read 1, .read 2, .read 3] =
      [.ok none, .ok none, .ok none, .ok (some 7), .ok (some 9), .ok (some 3), .ok (some 0)] := by
  have hfails : (Access.write 256 5).Fails := Nat.le_refl 256
  obtain ⟨hanswers, hwithout⟩ := memory_is_last_writer_store
    [.load [1, 2, 3], .write 1 9, .load [7], .write 256 5, .read 0, .read 1, .read 2, .read 3]
  refine ⟨hfails, hanswers.trans rfl, ?_⟩
  refine (hwithout [.load [1, 2, 3], .write 1 9, .load [7]] _ _ rfl hfails).trans ?_
  rw [hanswers]
  rfl

end Memory

end ByteMachine
