/-
This file models the buffer between the process that takes the pictures of the second
stream and those that send them on, and proves when it is a queue of bytes.

The buffer is a ring of one byte less than was allocated. Writing goes around the end
as often as it takes. Reading looks at where the writer stands only while the unread
bytes do not go around the end; where they do, it reads as much as it was asked for.
-/

import Mathlib.Algebra.Ring.Int.Defs
import Mathlib.Data.Int.Order.Basic
import ExmOnvif.Library.Circle
import ExmOnvif.Library.Runs

namespace ExmOnvif.Rtimage

open Library

/-! ### The buffer -/

/-- `SEC_MAX_LEN`. -/
def secMaxLen : Nat := 1024 * 1024

/-- `sec_buffer_t`, without its locks. -/
structure SecBuffer where
  buffer : Memory
  inAt : Nat
  outAt : Nat
  size : Nat
  stop : Int

namespace SecBuffer

/-- `sec_buff_init`, on the memory that was allocated. -/
def init (buffer : Memory) : SecBuffer := ⟨buffer, 0, 0, secMaxLen - 1, 0⟩

/-- The loop of `sec_buff_write`, in a number of turns. -/
def writeLoop : Nat → SecBuffer → Nat → List UInt8 → Option (Nat × SecBuffer)
  | 0, _, _, _ => none
  | turns + 1, sec, buffCnt, left =>
    if left = [] then some (buffCnt, sec)
    else
      let validLen := sec.size - sec.inAt
      if left.length < validLen then
        writeLoop turns
          { sec with
            buffer := store sec.buffer sec.inAt left
            inAt := (sec.inAt + left.length) % sec.size }
          left.length []
      else
        writeLoop turns
          { sec with
            buffer := store sec.buffer sec.inAt (left.take validLen)
            inAt := (sec.inAt + validLen) % sec.size }
          (buffCnt + validLen) (left.drop validLen)

/-- `sec_buff_write`. -/
def write (sec : SecBuffer) (buff : List UInt8) : Option (Nat × SecBuffer) :=
  writeLoop (buff.length + 2) sec 0 buff

/-- `memcpy` out of the buffer. A negative length is a large one. -/
def copyOut (sec : SecBuffer) (place : Nat) (len : Int) : Option (List UInt8) :=
  if 0 ≤ len ∧ place + len ≤ secMaxLen then some (load sec.buffer place len.toNat) else none

/-- `memset` to zero. -/
def clear (sec : SecBuffer) (place count : Nat) : SecBuffer :=
  { sec with buffer := store sec.buffer place (List.replicate count 0) }

/-- The bytes up to a length, with the reader behind them. -/
def moveOut (sec : SecBuffer) (len : Nat) : SecBuffer :=
  { sec with outAt := (sec.outAt + len) % sec.size }

/-- `sec_buff_read`: what it returns, what it copied, and the buffer. -/
def read (sec : SecBuffer) (len : Int) : Option (Int × List UInt8 × SecBuffer) :=
  -- The sum is one of machine integers.
  let last := Int.bmod (sec.outAt + len) (2 ^ 32)
  if sec.stop ≠ 0 then some (-1, [], sec)
  else if sec.outAt ≤ sec.inAt then
    if last ≤ sec.inAt then do
      let data ← sec.copyOut sec.outAt len
      some (len, data, (sec.clear sec.outAt len.toNat).moveOut len.toNat)
    else do
      let tmpLen := sec.inAt - sec.outAt
      let data ← sec.copyOut sec.outAt tmpLen
      some (tmpLen, data, (sec.clear sec.outAt tmpLen).moveOut tmpLen)
  else
    if last ≤ sec.size then do
      let data ← sec.copyOut sec.outAt len
      some (len, data, sec.moveOut len.toNat)
    else do
      let tmpLen := sec.size - sec.outAt
      let data ← sec.copyOut sec.outAt tmpLen
      let turned := (sec.clear sec.outAt tmpLen).moveOut tmpLen
      let rest ← turned.copyOut 0 (len - tmpLen)
      some (tmpLen + (len - tmpLen), data ++ rest,
        (turned.clear 0 (len - tmpLen).toNat).moveOut (len - tmpLen).toNat)

/-- `sec_buff_remain`. -/
def remain (sec : SecBuffer) : Nat :=
  if sec.outAt ≤ sec.inAt then sec.inAt - sec.outAt else sec.inAt + sec.size - sec.outAt

/-! ### The queue -/

/-- The buffer holds the unread bytes. -/
structure Holds (sec : SecBuffer) (unread : List UInt8) : Prop where
  size : sec.size = secMaxLen - 1
  stop : sec.stop = 0
  below : sec.outAt < sec.size
  room : unread.length ≤ sec.size - 1
  behind : sec.inAt = (sec.outAt + unread.length) % sec.size
  bytes : ringList sec.buffer sec.size sec.outAt unread.length = unread

theorem Holds.inside {sec : SecBuffer} {unread : List UInt8} (holds : sec.Holds unread) :
    sec.inAt < sec.size := by
  rw [holds.behind]
  exact Nat.mod_lt _ (Nat.zero_lt_of_lt holds.below)

theorem holds_init (buffer : Memory) : (init buffer).Holds [] where
  size := rfl
  stop := rfl
  below := Nat.zero_lt_of_lt (show 0 < secMaxLen - 1 by decide)
  room := Nat.zero_le _
  behind := rfl
  bytes := rfl

/-! ### Writing -/

variable {sec : SecBuffer} {unread buff : List UInt8}

/-- The bytes up to the end of the ring are written in one turn. -/
theorem writeLoop_short {turns buffCnt : Nat} (inside : sec.inAt < sec.size)
    (short : buff.length < sec.size - sec.inAt) :
    ∃ count, writeLoop (turns + 2) sec buffCnt buff =
      some (count,
        { sec with
          buffer := store sec.buffer sec.inAt buff
          inAt := (sec.inAt + buff.length) % sec.size }) := by
  by_cases nothing : buff = []
  · refine ⟨buffCnt, ?_⟩
    rw [writeLoop, if_pos nothing, nothing, store_nil, List.length_nil, Nat.add_zero,
      Nat.mod_eq_of_lt inside]
  · refine ⟨buff.length, ?_⟩
    simp only [writeLoop, if_neg nothing, if_pos short, if_true]

/-- Bytes that fit into the ring are written around its end. -/
theorem write_eq (inside : sec.inAt < sec.size) (turn : buff.length ≤ sec.size) :
    ∃ count, sec.write buff =
      some (count,
        { sec with
          buffer := splitStore sec.buffer sec.size sec.inAt buff
          inAt := (sec.inAt + buff.length) % sec.size }) := by
  by_cases short : buff.length < sec.size - sec.inAt
  · rw [splitStore, if_pos (Nat.le_of_lt short)]
    exact writeLoop_short inside short
  · have long : sec.size - sec.inAt ≤ buff.length := Nat.le_of_not_lt short
    have some : buff ≠ [] := by
      rintro rfl
      rw [List.length_nil] at long
      omega
    have around : (sec.inAt + (sec.size - sec.inAt)) % sec.size = 0 := by
      rw [Nat.add_sub_cancel' (Nat.le_of_lt inside), Nat.mod_self]
    have rest : (buff.drop (sec.size - sec.inAt)).length < sec.size - 0 := by
      rw [List.length_drop]
      omega
    have turns : buff.length + 1 = buff.length - 1 + 2 := by
      have positive := List.length_pos_iff.mpr some
      omega
    have last : (0 + (buff.drop (sec.size - sec.inAt)).length) % sec.size =
        (sec.inAt + buff.length) % sec.size := by
      have whole : sec.inAt + buff.length =
          (buff.drop (sec.size - sec.inAt)).length + sec.size := by
        rw [List.length_drop]
        omega
      rw [whole, Nat.add_mod_right, Nat.zero_add]
    obtain ⟨count, written⟩ := @writeLoop_short
      { sec with
        buffer := store sec.buffer sec.inAt (buff.take (sec.size - sec.inAt))
        inAt := 0 }
      (buff.drop (sec.size - sec.inAt)) (buff.length - 1) (0 + (sec.size - sec.inAt))
      (Nat.zero_lt_of_lt inside) rest
    refine ⟨count, ?_⟩
    rw [write, writeLoop, if_neg some]
    simp only [if_neg short]
    rw [around, turns, written, last]
    by_cases exact : buff.length ≤ sec.size - sec.inAt
    · rw [splitStore, if_pos exact, List.drop_eq_nil_of_le exact, store_nil,
        List.take_of_length_le exact]
    · rw [splitStore, if_neg exact]

/-- Written bytes are the newest unread ones. -/
theorem Holds.write (holds : sec.Holds unread)
    (room : (unread ++ buff).length ≤ sec.size - 1) :
    ∃ count after, sec.write buff = some (count, after) ∧ after.Holds (unread ++ buff) ∧
      after.outAt = sec.outAt := by
  have inside := holds.inside
  have lengths : unread.length + buff.length ≤ sec.size - 1 := by
    rw [← List.length_append]
    exact room
  have turn : buff.length ≤ sec.size := by omega
  obtain ⟨count, written⟩ := write_eq inside turn
  refine ⟨count, _, written, ⟨holds.size, holds.stop, holds.below, room, ?_, ?_⟩, rfl⟩
  · rw [holds.behind, List.length_append, Nat.mod_add_mod, Nat.add_assoc]
  · have apart : ArcsApart sec.size sec.outAt unread.length sec.inAt buff.length := by
      have turn : sec.outAt + unread.length + buff.length ≤ sec.outAt + sec.size := by omega
      have stretches := (arcsApart_of_le (Nat.le_refl _) turn).mod
      rwa [Nat.mod_eq_of_lt holds.below, ← holds.behind] at stretches
    rw [List.length_append, ringList_add, ringList_splitStore_apart inside apart, holds.bytes,
      ← ringList_mod, ← holds.behind, ringList_splitStore inside turn]

/-! ### Reading -/

/-- Where the writer stands. -/
theorem Holds.position (holds : sec.Holds unread) :
    sec.outAt ≤ sec.inAt ∧ sec.inAt = sec.outAt + unread.length ∨
      sec.inAt < sec.outAt ∧ sec.inAt + sec.size = sec.outAt + unread.length := by
  have below := holds.below
  have room := holds.room
  have behind := holds.behind
  by_cases turn : sec.outAt + unread.length < sec.size
  · rw [Nat.mod_eq_of_lt turn] at behind
    exact Or.inl ⟨by omega, behind⟩
  · rw [Nat.mod_eq_sub_mod (by omega), Nat.mod_eq_of_lt (by omega)] at behind
    exact Or.inr ⟨by omega, by omega⟩

theorem Holds.remain (holds : sec.Holds unread) : sec.remain = unread.length := by
  unfold SecBuffer.remain
  rcases holds.position with ⟨order, place⟩ | ⟨order, place⟩
  · rw [if_pos order]
    omega
  · rw [if_neg (Nat.not_le.mpr order)]
    omega

/-- The oldest bytes, read in one piece. -/
theorem Holds.load (holds : sec.Holds unread) {count : Nat} (some : count ≤ unread.length)
    (piece : count ≤ sec.size - sec.outAt) :
    Library.load sec.buffer sec.outAt count = unread.take count := by
  have rest : unread.length = count + (unread.length - count) := by omega
  have turn : count ≤ sec.size := by omega
  have bytes := holds.bytes
  rw [rest, ringList_add] at bytes
  rw [← bytes, List.take_left' (ringList_length _ _ _ _), ← splitLoad_eq holds.below turn,
    splitLoad, if_pos piece]

/-- The oldest bytes, read around the end. -/
theorem Holds.load_around (holds : sec.Holds unread) {count : Nat} (some : count ≤ unread.length)
    (long : sec.size - sec.outAt < count) :
    Library.load sec.buffer sec.outAt (sec.size - sec.outAt) ++
      Library.load sec.buffer 0 (count - (sec.size - sec.outAt)) = unread.take count := by
  have rest : unread.length = count + (unread.length - count) := by omega
  have room := holds.room
  have turn : count ≤ sec.size := by omega
  have bytes := holds.bytes
  rw [rest, ringList_add] at bytes
  rw [← bytes, List.take_left' (ringList_length _ _ _ _), ← splitLoad_eq holds.below turn,
    splitLoad, if_neg (Nat.not_le.mpr long)]

/-- The reader moves on, over bytes that may have been cleared. -/
theorem Holds.moveOut (holds : sec.Holds unread) {memory : Memory} {count : Nat}
    (kept : ∀ offset, count ≤ offset → offset < unread.length →
      memory ((sec.outAt + offset) % sec.size) = sec.buffer ((sec.outAt + offset) % sec.size))
    (some : count ≤ unread.length) :
    ({ sec with buffer := memory }.moveOut count).Holds (unread.drop count) where
  size := holds.size
  stop := holds.stop
  below := Nat.mod_lt _ (Nat.zero_lt_of_lt holds.below)
  room := by
    have room := holds.room
    rw [List.length_drop]
    exact (Nat.sub_le _ _).trans room
  behind := by
    show sec.inAt = ((sec.outAt + count) % sec.size + _) % sec.size
    rw [holds.behind, List.length_drop, Nat.mod_add_mod, Nat.add_assoc,
      Nat.add_sub_cancel' some]
  bytes := by
    show ringList memory sec.size ((sec.outAt + count) % sec.size) _ = _
    have rest : unread.length = count + (unread.length - count) := by omega
    have bytes := holds.bytes
    rw [rest, ringList_add] at bytes
    rw [List.length_drop, ringList_mod]
    have same : ringList memory sec.size (sec.outAt + count) (unread.length - count) =
        ringList sec.buffer sec.size (sec.outAt + count) (unread.length - count) := by
      refine ringList_congr fun offset inside => ?_
      rw [Nat.add_assoc]
      exact kept (count + offset) (Nat.le_add_right _ _) (by omega)
    rw [same]
    conv_rhs => rw [← bytes]
    rw [List.drop_left' (ringList_length _ _ _ _)]

/-- The bytes behind a cleared piece stay. -/
theorem Holds.clear_outside (holds : sec.Holds unread) {count offset : Nat}
    (behind : count ≤ offset) (inside : offset < unread.length) :
    (sec.clear sec.outAt count).buffer ((sec.outAt + offset) % sec.size) =
      sec.buffer ((sec.outAt + offset) % sec.size) := by
  have below := holds.below
  have room := holds.room
  refine store_outside ?_
  rw [List.length_replicate]
  by_cases turn : sec.outAt + offset < sec.size
  · rw [Nat.mod_eq_of_lt turn]
    omega
  · rw [Nat.mod_eq_sub_mod (by omega), Nat.mod_eq_of_lt (by omega)]
    omega

theorem copyOut_eq (sec : SecBuffer) {place count : Nat} (fits : place + count ≤ secMaxLen) :
    sec.copyOut place count = some (Library.load sec.buffer place count) := by
  have inside : 0 ≤ (count : Int) ∧ (place : Int) + count ≤ secMaxLen :=
    ⟨Int.natCast_nonneg _, by exact_mod_cast fits⟩
  rw [copyOut, if_pos inside, Int.toNat_natCast]

theorem sum_eq {place len : Int} (low : -2 ^ 31 ≤ place + len) (small : place + len < 2 ^ 31) :
    Int.bmod (place + len) (2 ^ 32) = place + len := by
  refine Int.bmod_eq_of_le_mul_two ?_ ?_
  · push_cast
    omega
  · push_cast
    omega

/-- The oldest bytes are copied and cleared in one piece. -/
theorem Holds.piece (holds : sec.Holds unread) {count : Nat} (some : count ≤ unread.length)
    (piece : count ≤ sec.size - sec.outAt) :
    sec.copyOut sec.outAt count = Option.some (unread.take count) ∧
      ((sec.clear sec.outAt count).moveOut count).Holds (unread.drop count) := by
  have size := holds.size
  have below := holds.below
  refine ⟨?_, holds.moveOut (fun offset => holds.clear_outside) some⟩
  rw [copyOut_eq _ (by omega), holds.load some piece]

/-- The oldest bytes are copied and cleared around the end. -/
theorem Holds.pieces (holds : sec.Holds unread) {count : Nat} (some : count ≤ unread.length)
    (long : sec.size - sec.outAt < count) :
    let tmpLen := sec.size - sec.outAt
    let turned := (sec.clear sec.outAt tmpLen).moveOut tmpLen
    ∃ front back, sec.copyOut sec.outAt tmpLen = Option.some front ∧
      turned.copyOut 0 (count - tmpLen : Nat) = Option.some back ∧
      front ++ back = unread.take count ∧
      ((turned.clear 0 (count - tmpLen)).moveOut (count - tmpLen)).Holds (unread.drop count) := by
  intro tmpLen turned
  have size := holds.size
  have below := holds.below
  have room := holds.room
  have free : count - tmpLen ≤ sec.outAt := by omega
  refine ⟨_, _, copyOut_eq _ (by omega), copyOut_eq _ (by omega), ?_, ?_⟩
  · have same : Library.load turned.buffer 0 (count - tmpLen) =
        Library.load sec.buffer 0 (count - tmpLen) := load_store_apart _ (by omega)
    rw [same]
    exact holds.load_around some long
  · have moved : (turned.clear 0 (count - tmpLen)).moveOut (count - tmpLen) =
        { sec with buffer := (turned.clear 0 (count - tmpLen)).buffer }.moveOut count := by
      have place : ((sec.outAt + tmpLen) % sec.size + (count - tmpLen)) % sec.size =
          (sec.outAt + count) % sec.size := by
        rw [Nat.mod_add_mod, Nat.add_assoc, Nat.add_sub_cancel' (Nat.le_of_lt long)]
      exact congrArg (fun outAt =>
        (⟨(turned.clear 0 (count - tmpLen)).buffer, sec.inAt, outAt, sec.size, sec.stop⟩ :
          SecBuffer)) place
    rw [moved]
    refine holds.moveOut (fun offset behind inside => ?_) some
    have turn : (sec.outAt + offset) % sec.size = sec.outAt + offset - sec.size := by
      rw [Nat.mod_eq_sub_mod (by omega), Nat.mod_eq_of_lt (by omega)]
    have front : (turned.clear 0 (count - tmpLen)).buffer ((sec.outAt + offset) % sec.size) =
        turned.buffer ((sec.outAt + offset) % sec.size) := by
      refine store_outside (Or.inr ?_)
      rw [List.length_replicate, turn]
      omega
    rw [front]
    exact holds.clear_outside (by omega) inside

/-- What the code makes right: the sum of the place and the length is a machine integer, and where
the unread bytes go around the end no more than they are is asked for. -/
def Readable (sec : SecBuffer) (len : Int) : Prop :=
  0 ≤ len ∧ sec.outAt + len < 2 ^ 31 ∧
    (sec.outAt ≤ sec.inAt ∨ len ≤ sec.inAt + sec.size - sec.outAt)

/-- Such a read takes the oldest bytes. -/
theorem Holds.read (holds : sec.Holds unread) {len : Nat} (readable : sec.Readable len) :
    ∃ after, sec.read len = some (min (len : Int) unread.length, unread.take len, after) ∧
      after.Holds (unread.drop len) ∧
      after.outAt = (sec.outAt + (unread.take len).length) % sec.size := by
  obtain ⟨_, small, known⟩ := readable
  have sum : Int.bmod (sec.outAt + len) (2 ^ 32) = sec.outAt + len := sum_eq (by omega) small
  have below := holds.below
  have inside := holds.inside
  have going : ¬sec.stop ≠ 0 := not_not.mpr holds.stop
  unfold SecBuffer.read
  simp only [sum, if_neg going]
  rcases holds.position with ⟨order, place⟩ | ⟨order, place⟩
  · rw [if_pos order]
    by_cases less : (sec.outAt : Int) + len ≤ sec.inAt
    · have some : len ≤ unread.length := by omega
      obtain ⟨copied, held⟩ := holds.piece some (by omega)
      rw [if_pos less, copied, Int.toNat_natCast, min_eq_left (by exact_mod_cast some)]
      exact ⟨_, rfl, held, by rw [List.length_take_of_le some]; rfl⟩
    · have all : unread.length ≤ len := by omega
      have tmpLen : sec.inAt - sec.outAt = unread.length := by omega
      obtain ⟨copied, held⟩ := holds.piece (Nat.le_refl _) (by omega)
      rw [if_neg less, tmpLen, copied, min_eq_right (by exact_mod_cast all),
        List.take_of_length_le all, List.drop_eq_nil_of_le all, List.take_length]
      rw [List.drop_length] at held
      exact ⟨_, rfl, held, rfl⟩
  · have some : len ≤ unread.length := by omega
    rw [if_neg (Nat.not_le.mpr order), min_eq_left (by exact_mod_cast some)]
    by_cases less : (sec.outAt : Int) + len ≤ sec.size
    · obtain ⟨copied, _⟩ := holds.piece some (by omega)
      rw [if_pos less, copied, Int.toNat_natCast]
      exact ⟨_, rfl, holds.moveOut (fun _ _ _ => rfl) some,
        by rw [List.length_take_of_le some]; rfl⟩
    · have long : sec.size - sec.outAt < len := by omega
      obtain ⟨front, back, first, second, whole, held⟩ := holds.pieces some long
      have rest : (len : Int) - ((sec.size - sec.outAt : Nat) : Int) =
          ((len - (sec.size - sec.outAt) : Nat) : Int) := by omega
      have total : ((sec.size - sec.outAt : Nat) : Int) +
          ((len - (sec.size - sec.outAt) : Nat) : Int) = len := by omega
      rw [if_neg less, first, rest, total, List.length_take_of_le some, ← whole]
      simp only [Option.bind_eq_bind, Option.bind_some, second, Int.toNat_natCast]
      refine ⟨_, rfl, held, ?_⟩
      show ((sec.outAt + (sec.size - sec.outAt)) % sec.size + _) % sec.size = _
      rw [Nat.mod_add_mod, Nat.add_assoc, Nat.add_sub_cancel' (Nat.le_of_lt long)]

/-- A read gives the oldest unread bytes, as many as there are up to the length. -/
def ReadsOldest (sec : SecBuffer) (unread : List UInt8) (len : Int) : Prop :=
  ∃ after, sec.read len = some (min len unread.length, unread.take len.toNat, after)

theorem copyOut_none {place : Nat} {len : Int} (wrong : len < 0 ∨ secMaxLen < place + len) :
    sec.copyOut place len = none := by
  unfold copyOut
  refine if_neg ?_
  omega

theorem Holds.readsOldest_iff (holds : sec.Holds unread) {len : Int} (low : -2 ^ 31 ≤ len)
    (high : len < 2 ^ 31) : sec.ReadsOldest unread len ↔ sec.Readable len := by
  have size : sec.size = 1048575 := holds.size
  have below := holds.below
  have inside := holds.inside
  have going : ¬sec.stop ≠ 0 := not_not.mpr holds.stop
  constructor
  · rintro ⟨after, result⟩
    by_contra unreadable
    unfold SecBuffer.read at result
    simp only [if_neg going] at result
    by_cases whole : 0 ≤ len ∧ sec.outAt + len < 2 ^ 31
    · -- The unread bytes go around the end, and fewer are there than are read.
      have sum : Int.bmod (sec.outAt + len) (2 ^ 32) = sec.outAt + len :=
        sum_eq (by omega) whole.2
      have turned : sec.inAt < sec.outAt ∧ (sec.inAt : Int) + sec.size - sec.outAt < len := by
        unfold Readable at unreadable
        omega
      have count : (unread.length : Int) = sec.inAt + sec.size - sec.outAt := by
        rcases holds.position with ⟨order, _⟩ | ⟨_, place⟩
        · omega
        · omega
      rw [if_neg (Nat.not_le.mpr turned.1), sum, if_neg (by omega)] at result
      obtain ⟨front, _, result⟩ := Option.bind_eq_some_iff.mp result
      obtain ⟨back, _, result⟩ := Option.bind_eq_some_iff.mp result
      have returned := congrArg Prod.fst (Option.some.inj result)
      simp only at returned
      omega
    · -- The sum is negative, and the length is no length of the buffer.
      have sum : Int.bmod (sec.outAt + len) (2 ^ 32) < sec.outAt := by
        by_cases negative : len < 0
        · rw [sum_eq (by omega) (by omega)]
          omega
        · have wrapped : Int.bmod (sec.outAt + len) (2 ^ 32) < 0 :=
            (Int.bmod_neg_iff (by omega) (by omega)).mpr (Or.inr (by omega))
          omega
      have copied : sec.copyOut sec.outAt len = none := by
        refine copyOut_none ?_
        unfold secMaxLen
        omega
      rw [copied] at result
      split at result
      · rw [if_pos (by omega)] at result
        cases result
      · rw [if_pos (by omega)] at result
        cases result
  · intro readable
    obtain ⟨count, rfl⟩ := Int.eq_ofNat_of_zero_le readable.1
    obtain ⟨after, result, _⟩ := holds.read readable
    exact ⟨after, result⟩

/-! ### Runs -/

/-- What is asked of the buffer. -/
inductive Call where
  | write (buff : List UInt8)
  | read (len : Int)

/-- The buffer, with the bytes that were written and not yet asked for. -/
structure Queue where
  sec : SecBuffer
  unread : List UInt8

/-- The buffer holds the bytes. -/
def Queue.Sound (queue : Queue) : Prop := queue.sec.Holds queue.unread

/-- One call. A writer does not write more than there is room for. -/
def Calls (before : Queue) : Call → Queue → Prop
  | .write buff, after => (∃ count, before.sec.write buff = some (count, after.sec)) ∧
      after.unread = before.unread ++ buff ∧ after.unread.length ≤ before.sec.size - 1
  | .read len, after => (∃ count data, before.sec.read len = some (count, data, after.sec)) ∧
      after.unread = before.unread.drop len.toNat

/-- The call does not ask for what the code does not make right. -/
def Asks (before : Queue) : Call → Prop
  | .write _ => True
  | .read len => before.sec.Readable len

theorem Queue.Sound.calls {before after : Queue} {call : Call} (sound : before.Sound)
    (called : Calls before call after) (asks : Asks before call) : after.Sound := by
  unfold Queue.Sound at *
  cases call with
  | write buff =>
    obtain ⟨⟨count, written⟩, queued, room⟩ := called
    rw [queued] at room ⊢
    obtain ⟨other, held, same, holds, _⟩ := sound.write room
    rw [written] at same
    cases same
    exact holds
  | read len =>
    obtain ⟨⟨count, data, result⟩, queued⟩ := called
    obtain ⟨len, rfl⟩ := Int.eq_ofNat_of_zero_le asks.1
    obtain ⟨held, same, holds, _⟩ := sound.read asks
    rw [result] at same
    cases same
    rw [queued]
    exact holds

/-- In every run of calls that ask for what the code makes right, the buffer counts the unread
bytes, and the next read gives the oldest of them exactly if it asks so too. -/
theorem second_buffer_fifo {buffer : Memory} {calls : List Call} {queue : Queue}
    (run : Runs (fun before call after => Calls before call after ∧ Asks before call)
      ⟨init buffer, []⟩ calls queue) :
    queue.sec.remain = queue.unread.length ∧
      ∀ len : Int, -2 ^ 31 ≤ len → len < 2 ^ 31 →
        (queue.sec.ReadsOldest queue.unread len ↔ queue.sec.Readable len) := by
  have initial : Queue.Sound ⟨init buffer, []⟩ := holds_init buffer
  have sound : queue.Sound :=
    Runs.invariant initial (fun _ _ _ taken sound => sound.calls taken.1 taken.2) run
  exact ⟨Holds.remain sound, fun len low high => Holds.readsOldest_iff sound low high⟩

/-- The buffer is filled and read to the byte before its end, and three bytes are written around
the end. -/
theorem turned_buffer {full : List UInt8} (length : full.length = 1048574) :
    ∃ queue, Runs (fun before call after => Calls before call after ∧ Asks before call)
        ⟨init fun _ => 0, []⟩ [.write full, .read 1048574, .write [1, 2, 3]] queue ∧
      queue.Sound ∧ queue.unread = [1, 2, 3] ∧ queue.sec.outAt = 1048574 := by
  have initial := holds_init fun _ => 0
  have room : ([] ++ full).length ≤ (init fun _ => 0).size - 1 := by
    rw [List.nil_append, length]
    decide
  obtain ⟨_, filled, written, held, place⟩ := initial.write room
  rw [List.nil_append] at held
  have readable : filled.Readable (1048574 : Nat) := by
    refine ⟨by decide, ?_, Or.inl ?_⟩
    · rw [place]
      decide
    · rw [place]
      exact Nat.zero_le _
  obtain ⟨emptied, result, left, moved⟩ := held.read readable
  rw [List.drop_eq_nil_of_le (Nat.le_of_eq length)] at left
  rw [List.take_of_length_le (Nat.le_of_eq length), length, place, held.size] at moved
  have more : ([] ++ [1, 2, 3] : List UInt8).length ≤ emptied.size - 1 := by
    rw [left.size]
    decide
  obtain ⟨_, turned, rewritten, sound, same⟩ := left.write more
  refine ⟨⟨turned, [1, 2, 3]⟩, ?_, sound, rfl, same.trans moved⟩
  have first : Calls ⟨init fun _ => 0, []⟩ (.write full) ⟨filled, full⟩ :=
    ⟨⟨_, written⟩, (List.nil_append full).symm, room⟩
  have second : Calls ⟨filled, full⟩ (.read 1048574) ⟨emptied, []⟩ :=
    ⟨⟨_, _, result⟩, (List.drop_eq_nil_of_le (Nat.le_of_eq length)).symm⟩
  have third : Calls ⟨emptied, []⟩ (.write [1, 2, 3]) ⟨turned, [1, 2, 3]⟩ :=
    ⟨⟨_, rewritten⟩, rfl, more⟩
  exact ((Runs.nil.snoc ⟨first, trivial⟩).snoc ⟨second, readable⟩).snoc ⟨third, trivial⟩

/-- The writer then stands at the third byte. -/
theorem turned_place {queue : Queue} (sound : queue.Sound) (unread : queue.unread = [1, 2, 3])
    (place : queue.sec.outAt = 1048574) : queue.sec.inAt = 2 := by
  have size : queue.sec.size = 1048575 := sound.size
  have behind := sound.behind
  rw [unread, place, size] at behind
  exact behind

theorem second_buffer_fifo_around_the_end :
    ∃ queue, Runs (fun before call after => Calls before call after ∧ Asks before call)
        ⟨init fun _ => 0, []⟩ [.write (List.replicate 1048574 0), .read 1048574, .write [1, 2, 3]]
        queue ∧
      queue.sec.inAt < queue.sec.outAt ∧ queue.sec.remain = 3 ∧
      queue.sec.ReadsOldest [1, 2, 3] 3 := by
  obtain ⟨queue, run, sound, unread, place⟩ := turned_buffer (List.length_replicate ..)
  have stands := turned_place sound unread place
  have fifo := second_buffer_fifo run
  rw [unread] at fifo
  have size : queue.sec.size = 1048575 := sound.size
  have readable : queue.sec.Readable 3 := by
    refine ⟨by decide, ?_, Or.inr ?_⟩
    · rw [place]
      decide
    · rw [place, stands, size]
      decide
  refine ⟨queue, run, ?_, fifo.1, (fifo.2 3 (by decide) (by decide)).mpr readable⟩
  rw [stands, place]
  decide

/-- Three bytes are unread, and a read of four bytes gives four. -/
theorem unread_bytes_passed :
    ∃ queue, Runs Calls ⟨init fun _ => 0, []⟩
        [.write (List.replicate 1048574 0), .read 1048574, .write [1, 2, 3]] queue ∧
      queue.unread = [1, 2, 3] ∧ ¬queue.sec.ReadsOldest queue.unread 4 := by
  obtain ⟨queue, run, sound, unread, place⟩ := turned_buffer (List.length_replicate ..)
  refine ⟨queue, run.weaken fun _ _ _ taken => taken.1, unread, fun oldest => ?_⟩
  have readable := (Holds.readsOldest_iff sound (by decide) (by decide)).mp oldest
  have size : queue.sec.size = 1048575 := sound.size
  have stands := turned_place sound unread place
  obtain ⟨_, _, order | short⟩ := readable
  · omega
  · omega

end SecBuffer

end ExmOnvif.Rtimage
