/-
This file models how a buffer is written to a connection and how one is filled from it,
with a kernel that takes or gives at each call as much as it likes, and proves what
becomes of the bytes and what is returned.

Both loops go on where the last call stopped, and after an interruption with the same
rest. The reader returns how much it has stored in all. The writer returns what its last
call took, so that its result is the length of the buffer only if the first call that
was not interrupted took all of it, while the bytes are written once each and in order
in any case.
-/

import ExmOnvif.GtComApi.Receive

namespace ExmOnvif.Gtsocket

open Library

/-! ### The kernel -/

/-- `EINTR`. -/
def eintr : Int := 4

/-- `EAGAIN`. -/
def eagain : Int := 11

/-- `EPIPE`. -/
def epipe : Int := 32

/-- `ETIMEDOUT`. -/
def etimedout : Int := 110

/-- `EHOSTUNREACH`. -/
def ehostunreach : Int := 113

/-- What `read` or `write` returns, with `errno` behind it. -/
structure Reply where
  ret : Int
  errno : Int
deriving DecidableEq, Repr

/-- The call was interrupted before anything was transferred. -/
def Reply.Interrupted (reply : Reply) : Prop := reply.ret < 0 ∧ reply.errno = eintr

instance (reply : Reply) : Decidable reply.Interrupted := inferInstanceAs (Decidable (_ ∧ _))

/-- The replies to one call after the other, each to a call for so many bytes. -/
abbrev Kernel := Nat → Nat → Reply

namespace Kernel

/-- The replies behind the first. -/
def later (kernel : Kernel) : Kernel := fun turn left => kernel (turn + 1) left

/-- Each call is interrupted or transfers something, and calls for the same bytes are not
interrupted for ever. -/
structure Progressing (kernel : Kernel) : Prop where
  each : ∀ turn left, 0 < left → (kernel turn left).Interrupted ∨
    0 < (kernel turn left).ret ∧ (kernel turn left).ret ≤ left
  goesOn : ∀ turn left, 0 < left → ∃ next, turn ≤ next ∧ ¬(kernel next left).Interrupted

/-- The first call that is not interrupted transfers everything. -/
def TakesAll (kernel : Kernel) (left : Nat) : Prop :=
  ∃ turn, (∀ earlier < turn, (kernel earlier left).Interrupted) ∧ (kernel turn left).ret = left

end Kernel

/-! ### The loops -/

/-- The loop of `net_write_buf`, from the rest of the buffer and the last count on: the pieces that
are taken, and what is returned. -/
def writeLoop : Nat → Kernel → Int → Bytes → Option (List Bytes × Int)
  | 0, _, _, _ => none
  | fuel + 1, kernel, writted, wp =>
    if wp.length = 0 then some ([], writted)
    else
      let reply := kernel 0 wp.length
      if reply.ret ≤ 0 then
        if reply.errno = eintr then writeLoop fuel kernel.later 0 wp
        else if reply.errno = epipe then some ([], -epipe)
        else if 0 < reply.errno then some ([], -reply.errno)
        else some ([], -1)
      else
        (writeLoop fuel kernel.later reply.ret (wp.drop reply.ret.toNat)).map
          fun (pieces, result) => (wp.take reply.ret.toNat :: pieces, result)

/-- `net_write_buf`. -/
def netWriteBuf (fuel : Nat) (kernel : Kernel) (buf : Bytes) : Option (List Bytes × Int) :=
  writeLoop fuel kernel 0 buf

/-- What a call of `net_read_buf` leaves behind. -/
structure Received where
  stored : Bytes
  rest : Bytes
  ret : Int
deriving DecidableEq, Repr

/-- The loop of `net_read_buf`, with what is stored already. -/
def readLoop (len : Nat) : Nat → Kernel → Nat → Bytes → Bytes → Option Received
  | 0, _, _, _, _ => none
  | fuel + 1, kernel, left, stored, stream =>
    if left = 0 then some ⟨stored, stream, len - left⟩
    else
      let reply := kernel 0 left
      if reply.ret ≤ 0 then
        if reply.ret = 0 then some ⟨stored, stream, -140⟩
        else if reply.errno = eintr then readLoop len fuel kernel.later left stored stream
        else if reply.errno = etimedout then some ⟨stored, stream, -etimedout⟩
        else if reply.errno = ehostunreach then some ⟨stored, stream, -ehostunreach⟩
        else if reply.errno = eagain then
          if left < len then some ⟨stored, stream, len - left⟩
          else some ⟨stored, stream, -eagain⟩
        else if 0 < reply.errno then some ⟨stored, stream, -reply.errno⟩
        else some ⟨stored, stream, -1⟩
      else
        readLoop len fuel kernel.later (left - reply.ret.toNat)
          (stored ++ stream.take reply.ret.toNat) (stream.drop reply.ret.toNat)

/-- `net_read_buf`. -/
def netReadBuf (fuel : Nat) (kernel : Kernel) (len : Nat) (stream : Bytes) : Option Received :=
  readLoop len fuel kernel len [] stream

/-! ### What is meant by a complete transfer -/

/-- Every byte of the buffer is written once and in order. -/
def WritesInOrder (kernel : Kernel) (buf : Bytes) : Prop :=
  ∃ enough, ∀ fuel, enough ≤ fuel → ∃ (pieces : List Bytes) (ret : Int),
    netWriteBuf fuel kernel buf = some (pieces, ret) ∧ pieces.flatten = buf

/-- Besides, the length of the buffer is returned. -/
def WritesAll (kernel : Kernel) (buf : Bytes) : Prop :=
  ∃ enough, ∀ fuel, enough ≤ fuel → ∃ pieces : List Bytes,
    netWriteBuf fuel kernel buf = some (pieces, (buf.length : Int)) ∧ pieces.flatten = buf

/-- The buffer is filled with the beginning of the stream, no more is taken from it, and the length
is returned. -/
def ReadsAll (kernel : Kernel) (len : Nat) (stream : Bytes) : Prop :=
  ∃ enough, ∀ fuel, enough ≤ fuel →
    netReadBuf fuel kernel len stream = some ⟨stream.take len, stream.drop len, len⟩

/-! ### Turns of a kernel -/

namespace Kernel

variable {kernel : Kernel} {left : Nat}

theorem Progressing.later (progressing : kernel.Progressing) : kernel.later.Progressing where
  each := fun turn left some => progressing.each (turn + 1) left some
  goesOn := by
    intro turn left some
    obtain ⟨next, behind, going⟩ := progressing.goesOn (turn + 1) left some
    obtain ⟨count, rfl⟩ := Nat.exists_eq_add_of_le' (Nat.one_le_of_lt behind)
    exact ⟨count, Nat.le_of_succ_le_succ behind, going⟩

/-- What holds with nothing left, and is kept by each call from what is left behind it, holds of
every kernel that goes on. -/
@[elab_as_elim]
theorem Progressing.induction {motive : Kernel → Nat → Prop}
    (finished : ∀ kernel : Kernel, motive kernel 0)
    (interrupted : ∀ (kernel : Kernel) left, 0 < left → (kernel 0 left).Interrupted →
      motive kernel.later left → motive kernel left)
    (taken : ∀ (kernel : Kernel) left count, 0 < count → count ≤ left →
      (kernel 0 left).ret = count → motive kernel.later (left - count) → motive kernel left)
    (progressing : kernel.Progressing) (left : Nat) : motive kernel left := by
  induction left using Nat.strong_induction_on generalizing kernel with
  | _ left inductionHypothesis =>
    rcases Nat.eq_zero_or_pos left with rfl | some
    · exact finished kernel
    · obtain ⟨next, _, going⟩ := progressing.goesOn 0 left some
      -- With fewer bytes left the hypothesis applies; until then the next call comes nearer.
      induction next generalizing kernel with
      | zero =>
        obtain ⟨positive, within⟩ := (progressing.each 0 left some).resolve_left going
        refine taken kernel left (kernel 0 left).ret.toNat (by omega) (by omega)
          (Int.toNat_of_nonneg (Int.le_of_lt positive)).symm ?_
        exact inductionHypothesis _ (by omega) progressing.later
      | succ next nearer =>
        by_cases stopped : (kernel 0 left).Interrupted
        · exact interrupted kernel left some stopped
            (nearer progressing.later (Nat.zero_le _) going)
        · obtain ⟨positive, within⟩ := (progressing.each 0 left some).resolve_left stopped
          refine taken kernel left (kernel 0 left).ret.toNat (by omega) (by omega)
            (Int.toNat_of_nonneg (Int.le_of_lt positive)).symm ?_
          exact inductionHypothesis _ (by omega) progressing.later

/-- An interruption does not count. -/
theorem takesAll_interrupted (some : 0 < left) (stopped : (kernel 0 left).Interrupted) :
    kernel.TakesAll left ↔ kernel.later.TakesAll left := by
  constructor
  · rintro ⟨turn, before, all⟩
    cases turn with
    | zero =>
      have negative := stopped.1
      omega
    | succ turn =>
      exact ⟨turn, fun earlier less => before (earlier + 1) (Nat.succ_lt_succ less), all⟩
  · rintro ⟨turn, before, all⟩
    refine ⟨turn + 1, fun earlier less => ?_, all⟩
    cases earlier with
    | zero => exact stopped
    | succ earlier => exact before earlier (Nat.lt_of_succ_lt_succ less)

/-- A call that takes something decides. -/
theorem takesAll_taken {count : Nat} (some : 0 < count) (ret : (kernel 0 left).ret = count) :
    kernel.TakesAll left ↔ count = left := by
  constructor
  · rintro ⟨turn, before, all⟩
    cases turn with
    | zero =>
      rw [ret] at all
      exact Int.ofNat.inj all
    | succ turn =>
      have negative := (before 0 (Nat.succ_pos _)).1
      omega
  · rintro rfl
    exact ⟨0, fun earlier less => absurd less (Nat.not_lt_zero _), ret⟩

end Kernel

/-! ### One turn of the loops -/

section Turns

variable {fuel left len count : Nat} {kernel : Kernel} {writted : Int} {wp stored stream : Bytes}

theorem writeLoop_interrupted (some : 0 < wp.length)
    (stopped : (kernel 0 wp.length).Interrupted) :
    writeLoop (fuel + 1) kernel writted wp = writeLoop fuel kernel.later 0 wp := by
  rw [writeLoop, if_neg some.ne']
  simp only
  rw [if_pos (Int.le_of_lt stopped.1), if_pos stopped.2]

theorem writeLoop_taken (some : 0 < count) (within : count ≤ wp.length)
    (ret : (kernel 0 wp.length).ret = count) :
    writeLoop (fuel + 1) kernel writted wp =
      (writeLoop fuel kernel.later count (wp.drop count)).map
        fun (pieces, result) => (wp.take count :: pieces, result) := by
  rw [writeLoop, if_neg (by omega)]
  simp only
  rw [ret, if_neg (by omega), Int.toNat_natCast]

/-- What has been taken when no error is returned. -/
theorem writeLoop_flatten {fuel : Nat} {kernel : Kernel} {writted ret : Int} {wp : Bytes}
    {pieces : List Bytes} (ended : writeLoop fuel kernel writted wp = some (pieces, ret))
    (good : 0 ≤ ret) : pieces.flatten = wp := by
  induction fuel generalizing kernel writted wp pieces with
  | zero => cases ended
  | succ fuel inductionHypothesis =>
    rw [writeLoop] at ended
    simp only at ended
    split at ended
    · next nothing =>
      cases ended
      rw [List.eq_nil_of_length_eq_zero nothing]
      rfl
    · split at ended
      · split at ended
        · exact inductionHypothesis ended
        · split at ended
          · cases ended
            exact absurd good (by decide)
          · split at ended
            · cases ended
              omega
            · cases ended
              exact absurd good (by decide)
      · obtain ⟨⟨later, result⟩, rest, same⟩ := Option.map_eq_some_iff.mp ended
        cases same
        rw [List.flatten_cons, inductionHypothesis rest, List.take_append_drop]

theorem readLoop_interrupted (some : 0 < left) (stopped : (kernel 0 left).Interrupted) :
    readLoop len (fuel + 1) kernel left stored stream =
      readLoop len fuel kernel.later left stored stream := by
  rw [readLoop, if_neg some.ne']
  simp only
  rw [if_pos (Int.le_of_lt stopped.1), if_neg (Int.ne_of_lt stopped.1), if_pos stopped.2]

theorem readLoop_taken (some : 0 < count) (within : count ≤ left)
    (ret : (kernel 0 left).ret = count) :
    readLoop len (fuel + 1) kernel left stored stream =
      readLoop len fuel kernel.later (left - count) (stored ++ stream.take count)
        (stream.drop count) := by
  rw [readLoop, if_neg (by omega)]
  simp only
  rw [ret, if_neg (by omega), Int.toNat_natCast]

end Turns

/-! ### Whole transfers -/

/-- What the writer does with a kernel that goes on: the bytes are taken in order, and the last
count is returned. -/
theorem writeLoop_progressing {kernel : Kernel} (progressing : kernel.Progressing) (left : Nat) :
    ∀ (writted : Int) (wp : Bytes), wp.length = left → ∃ enough pieces ret,
      (∀ fuel, enough ≤ fuel → writeLoop fuel kernel writted wp = some (pieces, ret)) ∧
        pieces.flatten = wp ∧ (left = 0 → ret = writted) ∧
        (0 < left → ret ≤ left ∧ (ret = left ↔ kernel.TakesAll left)) := by
  refine progressing.induction ?_ ?_ ?_ left
  · intro kernel writted wp length
    refine ⟨1, [], writted, fun fuel enough => ?_, ?_, fun _ => rfl, fun some => by cases some⟩
    · obtain ⟨fuel, rfl⟩ := Nat.exists_eq_add_of_le' enough
      rw [writeLoop, if_pos length]
    · rw [List.eq_nil_of_length_eq_zero length, List.flatten_nil]
  · rintro kernel _ some stopped inductionHypothesis writted wp rfl
    obtain ⟨enough, pieces, ret, run, whole, _, last⟩ := inductionHypothesis 0 wp rfl
    refine ⟨enough + 1, pieces, ret, fun fuel more => ?_, whole, fun none => ?_, fun _ => ?_⟩
    · obtain ⟨fuel, rfl⟩ := Nat.exists_eq_add_of_le' more
      rw [← Nat.add_assoc, writeLoop_interrupted some stopped]
      exact run _ (Nat.le_add_left _ _)
    · exact absurd none some.ne'
    · rw [Kernel.takesAll_interrupted some stopped]
      exact last some
  · rintro kernel _ count some within taken inductionHypothesis writted wp rfl
    obtain ⟨enough, pieces, ret, run, whole, none, last⟩ :=
      inductionHypothesis count (wp.drop count) List.length_drop
    refine ⟨enough + 1, wp.take count :: pieces, ret, fun fuel more => ?_, ?_, fun empty => ?_,
      fun _ => ?_⟩
    · obtain ⟨fuel, rfl⟩ := Nat.exists_eq_add_of_le' more
      rw [← Nat.add_assoc, writeLoop_taken some within taken, run _ (Nat.le_add_left _ _)]
      rfl
    · rw [List.flatten_cons, whole, List.take_append_drop]
    · omega
    · rw [Kernel.takesAll_taken some taken]
      -- The count of a last call is the whole rest, that of an earlier one never.
      rcases Nat.eq_zero_or_pos (wp.length - count) with empty | more
      · have same := none empty
        omega
      · have bounds := last more
        omega

/-- The bytes are written once each and in order however the kernel takes them. -/
theorem writesInOrder {kernel : Kernel} (progressing : kernel.Progressing) (buf : Bytes) :
    WritesInOrder kernel buf := by
  obtain ⟨enough, pieces, ret, run, whole, _⟩ :=
    writeLoop_progressing progressing buf.length 0 buf rfl
  exact ⟨enough, fun fuel more => ⟨pieces, ret, run fuel more, whole⟩⟩

/-- The writer returns the length exactly if its first call that is not interrupted takes all. -/
theorem writesAll_iff {kernel : Kernel} (progressing : kernel.Progressing) {buf : Bytes}
    (some : 0 < buf.length) : WritesAll kernel buf ↔ kernel.TakesAll buf.length := by
  obtain ⟨enough, pieces, ret, run, whole, _, last⟩ :=
    writeLoop_progressing progressing buf.length 0 buf rfl
  rw [← (last some).2]
  constructor
  · rintro ⟨other, all⟩
    obtain ⟨others, again, _⟩ := all (max enough other) (le_max_right _ _)
    have same := (run _ (le_max_left enough other)).symm.trans again
    exact (Prod.mk.inj (Option.some.inj same)).2
  · rintro rfl
    exact ⟨enough, fun fuel more => ⟨pieces, run fuel more, whole⟩⟩

/-- The reader fills what is left of the buffer with the beginning of the stream. -/
theorem readLoop_progressing {kernel : Kernel} (progressing : kernel.Progressing)
    (len left : Nat) : ∀ stored stream : Bytes, left ≤ stream.length →
      ∃ enough, ∀ fuel, enough ≤ fuel → readLoop len fuel kernel left stored stream =
        some ⟨stored ++ stream.take left, stream.drop left, len⟩ := by
  refine progressing.induction ?_ ?_ ?_ left
  · intro kernel stored stream _
    refine ⟨1, fun fuel enough => ?_⟩
    obtain ⟨fuel, rfl⟩ := Nat.exists_eq_add_of_le' enough
    rw [readLoop, if_pos rfl, List.take_zero, List.append_nil, List.drop_zero]
    rw [Int.natCast_zero, Int.sub_zero]
  · intro kernel left some stopped inductionHypothesis stored stream supplied
    obtain ⟨enough, run⟩ := inductionHypothesis stored stream supplied
    refine ⟨enough + 1, fun fuel more => ?_⟩
    obtain ⟨fuel, rfl⟩ := Nat.exists_eq_add_of_le' more
    rw [← Nat.add_assoc, readLoop_interrupted some stopped]
    exact run _ (Nat.le_add_left _ _)
  · intro kernel left count some within given inductionHypothesis stored stream supplied
    obtain ⟨enough, run⟩ := inductionHypothesis (stored ++ stream.take count)
      (stream.drop count) (by rw [List.length_drop]; omega)
    refine ⟨enough + 1, fun fuel more => ?_⟩
    obtain ⟨fuel, rfl⟩ := Nat.exists_eq_add_of_le' more
    have split : stream.take left =
        stream.take count ++ (stream.drop count).take (left - count) := by
      rw [← List.take_add, Nat.add_sub_cancel' within]
    rw [← Nat.add_assoc, readLoop_taken some within given, run _ (Nat.le_add_left _ _),
      List.append_assoc, ← split, List.drop_drop, Nat.add_sub_cancel' within]

/-- The reader fills the buffer from a stream that is long enough, however it comes. -/
theorem readsAll {kernel : Kernel} (progressing : kernel.Progressing) {len : Nat}
    {stream : Bytes} (supplied : len ≤ stream.length) : ReadsAll kernel len stream :=
  readLoop_progressing progressing len len [] stream supplied

/-- The two transfers are complete exactly if the first call to write that is not interrupted takes
the whole buffer. -/
theorem complete_transfer_iff {writer reader : Kernel} (writing : writer.Progressing)
    (reading : reader.Progressing) {buf : Bytes} (some : 0 < buf.length) {len : Nat}
    {stream : Bytes} (supplied : len ≤ stream.length) :
    (WritesAll writer buf ∧ ReadsAll reader len stream) ↔ writer.TakesAll buf.length := by
  rw [writesAll_iff writing some]
  exact and_iff_left (readsAll reading supplied)

/-- One byte at each call. -/
def byOnes : Kernel := fun _ _ => ⟨1, 0⟩

/-- An interruption, and then whatever is wanted. -/
def afterInterruption : Kernel := fun turn left => if turn = 0 then ⟨-1, eintr⟩ else ⟨left, 0⟩

theorem byOnes_progressing : byOnes.Progressing where
  each := fun _ left some => Or.inr ⟨Int.one_pos, Int.ofNat_le.mpr some⟩
  goesOn := fun turn _ _ =>
    ⟨turn, le_refl _, fun stopped => absurd stopped.1 (by decide : ¬(1 : Int) < 0)⟩

theorem afterInterruption_progressing : afterInterruption.Progressing where
  each := by
    intro turn left some
    unfold afterInterruption
    split
    · exact Or.inl ⟨by decide, rfl⟩
    · exact Or.inr ⟨Int.natCast_pos.mpr some, Int.le_refl _⟩
  goesOn := by
    intro turn left some
    refine ⟨turn + 1, Nat.le_succ _, ?_⟩
    rw [afterInterruption, if_neg (Nat.succ_ne_zero _)]
    exact fun stopped => absurd stopped.1 (Int.not_lt.mpr (Int.natCast_nonneg _))

theorem complete_transfer_iff_interrupted :
    WritesAll afterInterruption [1, 2] ∧ ReadsAll byOnes 2 [1, 2, 3] := by
  refine (complete_transfer_iff afterInterruption_progressing byOnes_progressing (by decide)
    (by decide)).mpr ⟨1, fun earlier less => ?_, rfl⟩
  rw [Nat.lt_one_iff.mp less]
  decide

/-- Two bytes that are taken one by one are reported as one. -/
theorem last_count_returned : byOnes.Progressing ∧ 0 < [1, 2].length ∧
    netWriteBuf 3 byOnes [1, 2] = some ([[1], [2]], 1) ∧ ¬WritesAll byOnes [1, 2] := by
  refine ⟨byOnes_progressing, by decide, rfl, fun all => ?_⟩
  obtain ⟨turn, before, taken⟩ := (writesAll_iff byOnes_progressing (by decide)).mp all
  exact absurd taken (by decide : (1 : Int) ≠ 2)

/-! ### Streams in pieces -/

/-- The kernel that gives the pieces of a stream, one at a call, and then its end. -/
def ofSocket (socket : GtComApi.Socket) : Kernel := fun turn left =>
  match socket[turn]? with
  | none => ⟨0, 0⟩
  | some [] => ⟨-1, eintr⟩
  | some piece => ⟨(min piece.length left : Nat), 0⟩

theorem ofSocket_ret {piece : Bytes} {socket : GtComApi.Socket} {left : Nat}
    (nonempty : piece ≠ []) :
    (ofSocket (piece :: socket) 0 left).ret = (min piece.length left : Nat) := by
  cases piece with
  | nil => exact absurd rfl nonempty
  | cons byte piece => rfl

/-- What a read of a stream in pieces comes to. -/
def received (len : Nat) (stored : Bytes) (outcome : Bytes × Option GtComApi.Socket) : Received :=
  match outcome.2 with
  | some rest => ⟨stored ++ outcome.1, rest.flatten, len⟩
  | none => ⟨stored ++ outcome.1, [], -140⟩

/-- The receiver of packets reads with this loop. -/
theorem readLoop_ofSocket {len fuel left : Nat} {socket : GtComApi.Socket} {stored : Bytes}
    (enough : socket.length < fuel) :
    readLoop len fuel (ofSocket socket) left stored socket.flatten =
      some (received len stored (GtComApi.netReadBuf left socket)) := by
  induction socket generalizing fuel left stored with
  | nil =>
    cases fuel with
    | zero => cases enough
    | succ fuel =>
      cases left with
      | zero =>
        rw [readLoop, if_pos rfl, GtComApi.netReadBuf, received, List.append_nil]
        simp only [Int.natCast_zero, Int.sub_zero]
      | succ left =>
        rw [readLoop, if_neg (Nat.succ_ne_zero left), GtComApi.netReadBuf, received,
          List.append_nil]
        rfl
  | cons piece socket inductionHypothesis =>
    cases fuel with
    | zero => cases enough
    | succ fuel =>
      have rest := Nat.lt_of_succ_lt_succ enough
      have behind : (ofSocket (piece :: socket)).later = ofSocket socket := rfl
      cases left with
      | zero =>
        rw [readLoop, if_pos rfl, GtComApi.netReadBuf, received, List.append_nil]
        simp only [Int.natCast_zero, Int.sub_zero]
      | succ left =>
        by_cases empty : piece = []
        · have stopped : (ofSocket (piece :: socket) 0 (left + 1)).Interrupted := by
            rw [empty]
            exact (by decide : (⟨-1, eintr⟩ : Reply).Interrupted)
          have skipped : GtComApi.netReadBuf (left + 1) (piece :: socket) =
              GtComApi.netReadBuf (left + 1) socket := by
            rw [empty, GtComApi.netReadBuf, List.length_nil, if_pos (Nat.zero_le (left + 1))]
            rfl
          rw [readLoop_interrupted (Nat.succ_pos _) stopped, behind, List.flatten_cons, skipped,
            empty, List.nil_append, inductionHypothesis rest]
        · have some := List.length_pos_of_ne_nil empty
          have given := @ofSocket_ret piece socket (left + 1) empty
          rw [List.flatten_cons, GtComApi.netReadBuf]
          by_cases within : piece.length ≤ left + 1
          · rw [Nat.min_eq_left within] at given
            rw [readLoop_taken some within given, behind, List.take_left, List.drop_left,
              inductionHypothesis rest, if_pos within, received, received]
            simp only [List.append_assoc]
          · have part := Nat.le_of_not_le within
            rw [Nat.min_eq_right part] at given
            obtain ⟨fuel, rfl⟩ := Nat.exists_eq_add_of_lt rest
            rw [readLoop_taken (Nat.succ_pos _) (le_refl _) given, Nat.sub_self, readLoop,
              if_pos rfl, if_neg within, received, List.take_append_of_le_length part,
              List.drop_append_of_le_length part]
            simp only [Int.natCast_zero, Int.sub_zero, List.flatten_cons]

end ExmOnvif.Gtsocket
