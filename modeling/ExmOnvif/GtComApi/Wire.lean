/-
This file says what a receiver of packets has to make of a stream of bytes, without
its buffers and without the pieces in which the stream arrives.

At a place of the stream the receiver either goes on to a later place, because there is
no packet here that it can take, or it stops with a packet or an error. A frame that it
has room for is taken whole.
-/

import ExmOnvif.Library.Scan
import ExmOnvif.GtComApi.Packet

namespace ExmOnvif.GtComApi

open Library

/-- The circumstances of a call. -/
structure Conf where
  /-- The size of the buffer for the packet. -/
  bufLen : Nat
  room : 36 ≤ bufLen
  /-- Whether the pointers for the types are given. -/
  given : Bool
  /-- The block that `posix_memalign` gives when so many bytes of the stream are left, with
  whatever is in it. -/
  memalign : Nat → Option Memory
  /-- `env_unpack`, of the type, the envelope, the room and the buffer for the packet: what it
  returns and the buffer afterwards. -/
  envUnpack : UInt8 → Bytes → Nat → Memory → Int × Memory

/-- Memory for a long packet is always there. -/
def Conf.Plenty (conf : Conf) : Prop := ∀ left, ∃ fresh, conf.memalign left = some fresh

/-- `TMPBUF_LEN`. -/
def tmpbufLen : Nat := 1024

/-! ### Places of a stream -/

/-- What is to be made of the bytes from a place on. -/
inductive Verdict where
  /-- The search goes on behind so many bytes. -/
  | skip (count : Nat)
  /-- The stream ends in the middle of a packet. -/
  | ended
  /-- A header is accepted that has no message. -/
  | short
  /-- A packet of so many bytes has another checksum. -/
  | damaged (count : Nat)
  /-- A packet of so many bytes is of a type that is not known. -/
  | unknown (count : Nat)
  /-- A packet of so many bytes is an envelope. -/
  | envelope (count : Nat)
  /-- A packet with this message. -/
  | message (payload : Bytes)
deriving DecidableEq, Repr

/-- The number of bytes up to the first one that is not the mark expected there. -/
def mismatch : Bytes → Bytes → Option Nat
  | [], _ => none
  | _ :: _, [] => none
  | mark :: marks, byte :: bytes =>
    if byte = mark then (mismatch marks bytes).map (· + 1) else some 1

/-- The word of four bytes at a place. -/
def wordAt (bytes : Bytes) (place : Nat) : Nat := wordOf ((bytes.drop place).take 4)

/-- The length of the message as the header has it. -/
def lengthAt (bytes : Bytes) : Int :=
  ((bytes.getD 4 0).toNat + 2 ^ 8 * (bytes.getD 5 0).toNat : Nat) - 14

/-- The header at this place is not for a packet that can be received. -/
def Dropped (conf : Conf) (bytes : Bytes) : Prop :=
  (conf.bufLen : Int) < lengthAt bytes + 36 ∨
    wordAt bytes 4 ^^^ wordAt bytes 8 ≠ wordAt bytes 12 ∨
    (tmpbufLen : Int) < lengthAt bytes + 528 ∧ conf.memalign (bytes.length - 16) = none

instance (conf : Conf) (bytes : Bytes) : Decidable (Dropped conf bytes) :=
  inferInstanceAs (Decidable (_ ∨ _ ∨ _))

/-- What is to be made of a packet with `count` bytes of message. -/
def packetVerdict (count : Nat) (bytes : Bytes) : Verdict :=
  if bytes.length < count + 24 then .ended
  else if wordAt bytes (count + 20) ≠ pktTail then .skip (count + 24)
  else if (tabCrc32 ((bytes.drop 16).take count)).toNat ≠ wordAt bytes (count + 16) then
    .damaged (count + 24)
  else if bytes.getD 7 0 = gtCmdNoAuth then .message ((bytes.drop 16).take count)
  else if bytes.getD 7 0 = msgAuthSsl then .envelope (count + 24)
  else .unknown (count + 24)

/-- What is to be made of the bytes from a place on. -/
def verdict (conf : Conf) (bytes : Bytes) : Verdict :=
  match mismatch syncHead bytes with
  | some count => .skip count
  | none =>
    if bytes.length < 16 then .ended
    else if Dropped conf bytes then .skip 16
    else if lengthAt bytes ≤ 0 then .short
    else packetVerdict (lengthAt bytes).toNat bytes

/-- The search for a packet. -/
def search (conf : Conf) (bytes : Bytes) : Option Bytes :=
  match verdict conf bytes with
  | .skip count => some (bytes.drop count)
  | _ => none

/-! ### The search moves on -/

section Search

variable {conf : Conf} {bytes next : Bytes} {count : Nat}

theorem mismatch_bounds {marks : Bytes} (found : mismatch marks bytes = some count) :
    1 ≤ count ∧ count ≤ bytes.length := by
  induction marks generalizing bytes count with
  | nil => cases found
  | cons mark marks inductionHypothesis =>
    cases bytes with
    | nil => cases found
    | cons byte bytes =>
      rw [mismatch] at found
      rw [List.length_cons]
      split at found
      · obtain ⟨later, there, rfl⟩ := Option.map_eq_some_iff.mp found
        have bounds := inductionHypothesis there
        omega
      · cases found
        omega

/-- What a packet can come to. -/
theorem packetVerdict_cases (count : Nat) (bytes : Bytes) :
    bytes.length < count + 24 ∧ packetVerdict count bytes = .ended ∨
      count + 24 ≤ bytes.length ∧
        (packetVerdict count bytes = .skip (count + 24) ∧ wordAt bytes (count + 20) ≠ pktTail ∨
          packetVerdict count bytes = .damaged (count + 24) ∨
          packetVerdict count bytes = .envelope (count + 24) ∨
          packetVerdict count bytes = .unknown (count + 24) ∨
          packetVerdict count bytes = .message ((bytes.drop 16).take count) ∧
            wordAt bytes (count + 20) = pktTail ∧
            wordAt bytes (count + 16) = (tabCrc32 ((bytes.drop 16).take count)).toNat ∧
            bytes.getD 7 0 = gtCmdNoAuth) := by
  unfold packetVerdict
  split
  · next few => exact .inl ⟨few, rfl⟩
  · next enough =>
    refine .inr ⟨Nat.not_lt.mp enough, ?_⟩
    split
    · next tail => exact .inl ⟨rfl, tail⟩
    · next tail =>
      split
      · exact .inr (.inl rfl)
      · next crc =>
        split
        · next plain =>
          exact .inr (.inr (.inr (.inr ⟨rfl, not_not.mp tail, (not_not.mp crc).symm, plain⟩)))
        · split
          · exact .inr (.inr (.inl rfl))
          · exact .inr (.inr (.inr (.inl rfl)))

/-- When the search goes on: at a byte that does not fit the mark, behind a header that is dropped,
and behind a packet without its end mark. -/
theorem verdict_skip_iff :
    verdict conf bytes = .skip count ↔
      mismatch syncHead bytes = some count ∨
        mismatch syncHead bytes = none ∧ 16 ≤ bytes.length ∧
          (Dropped conf bytes ∧ count = 16 ∨
            ¬Dropped conf bytes ∧ 0 < lengthAt bytes ∧ count = (lengthAt bytes).toNat + 24 ∧
              count ≤ bytes.length ∧ wordAt bytes ((lengthAt bytes).toNat + 20) ≠ pktTail) := by
  unfold verdict
  cases found : mismatch syncHead bytes with
  | some passed => simp
  | none =>
    simp only [reduceCtorEq, false_or, true_and]
    by_cases header : bytes.length < 16
    · rw [if_pos header]
      exact iff_of_false (fun skips => by cases skips) fun enough => by omega
    · rw [if_neg header]
      by_cases drops : Dropped conf bytes
      · rw [if_pos drops]
        simp only [Verdict.skip.injEq, drops, not_true_eq_false, false_and, or_false, true_and]
        omega
      · rw [if_neg drops]
        simp only [drops, not_false_eq_true, false_and, true_and, false_or]
        by_cases short : lengthAt bytes ≤ 0
        · rw [if_pos short]
          exact iff_of_false (fun skips => by cases skips) fun positive => by omega
        · rw [if_neg short]
          constructor
          · intro skips
            rcases packetVerdict_cases (lengthAt bytes).toNat bytes with
              ⟨_, ended⟩ | ⟨enough, ⟨skip, tail⟩ | other | other | other | ⟨other, _⟩⟩
            · rw [ended] at skips
              cases skips
            · have same : (lengthAt bytes).toNat + 24 = count := by
                rw [skip] at skips
                injection skips
              exact ⟨by omega, by omega, same.symm, by omega, tail⟩
            all_goals
              rw [other] at skips
              cases skips
          · rintro ⟨_, _, rfl, enough, tail⟩
            rw [packetVerdict, if_neg (Nat.not_lt.mpr enough), if_pos tail]

/-- A skip passes at least one byte, and no more than there are. -/
theorem verdict_skip (skips : verdict conf bytes = .skip count) :
    1 ≤ count ∧ count ≤ bytes.length := by
  rcases verdict_skip_iff.mp skips with
    found | ⟨_, header, ⟨_, rfl⟩ | ⟨_, _, rfl, enough, _⟩⟩
  · exact mismatch_bounds found
  · exact ⟨by decide, header⟩
  · exact ⟨by omega, enough⟩

theorem search_of_skip (skips : verdict conf bytes = .skip count) :
    search conf bytes = some (bytes.drop count) := by
  rw [search, skips]

theorem search_some (moves : search conf bytes = some next) :
    ∃ count, verdict conf bytes = .skip count ∧ next = bytes.drop count ∧
      next.length < bytes.length := by
  unfold search at moves
  split at moves
  · next count skips =>
    cases moves
    have bounds := verdict_skip skips
    refine ⟨count, skips, rfl, ?_⟩
    rw [List.length_drop]
    omega
  · cases moves

theorem search_smaller (bytes next : Bytes) (moves : search conf bytes = some next) :
    next.length < bytes.length := by
  obtain ⟨_, _, _, less⟩ := search_some moves
  exact less

/-- The search comes to places further on in the stream. -/
theorem comes_suffix {last : Bytes} (way : Comes (search conf) bytes last) : last <:+ bytes := by
  induction way with
  | here => exact List.suffix_refl _
  | further taken _ inductionHypothesis =>
    obtain ⟨count, _, rfl, _⟩ := search_some taken
    exact inductionHypothesis.trans (List.drop_suffix count _)

end Search

/-! ### Frames -/

/-- The bytes of a frame that can be received and has this message. -/
structure WellFormed (conf : Conf) (bytes payload : Bytes) : Prop where
  length : bytes.length = payload.length + 24
  sync : bytes.take 4 = syncHead
  xor : wordAt bytes 4 ^^^ wordAt bytes 8 = wordAt bytes 12
  count : lengthAt bytes = payload.length
  nonempty : 1 ≤ payload.length
  fits : payload.length ≤ conf.bufLen - 36
  plain : bytes.getD 7 0 = gtCmdNoAuth
  body : (bytes.drop 16).take payload.length = payload
  crc : wordAt bytes (payload.length + 16) = (tabCrc32 payload).toNat
  tail : wordAt bytes (payload.length + 20) = pktTail

section Frames

variable {conf : Conf} {bytes rest payload : Bytes} {place : Nat}

theorem wordAt_append (inside : place + 4 ≤ bytes.length) :
    wordAt (bytes ++ rest) place = wordAt bytes place := by
  have short : 4 ≤ (bytes.drop place).length := by
    rw [List.length_drop]
    omega
  rw [wordAt, wordAt, List.drop_append_of_le_length (by omega),
    List.take_append_of_le_length short]

theorem getD_append (inside : place < bytes.length) :
    (bytes ++ rest).getD place 0 = bytes.getD place 0 := by
  rw [List.getD_append _ _ _ _ inside]

theorem mismatch_none {marks : Bytes} (matched : mismatch marks bytes = none)
    (enough : marks.length ≤ bytes.length) : bytes.take marks.length = marks := by
  induction marks generalizing bytes with
  | nil => rfl
  | cons mark marks inductionHypothesis =>
    cases bytes with
    | nil => cases enough
    | cons byte bytes =>
      rw [mismatch] at matched
      split at matched
      · next same =>
        rw [Option.map_eq_none_iff] at matched
        rw [List.length_cons, List.take_succ_cons, same,
          inductionHypothesis matched (Nat.le_of_succ_le_succ enough)]
      · cases matched

/-- When a packet is taken. -/
theorem verdict_message (taken : verdict conf bytes = .message payload) :
    mismatch syncHead bytes = none ∧ ¬Dropped conf bytes ∧ 0 < lengthAt bytes ∧
      lengthAt bytes = payload.length ∧ payload.length + 24 ≤ bytes.length ∧
      packetVerdict payload.length bytes = .message payload := by
  unfold verdict at taken
  split at taken
  · cases taken
  · next matched =>
    split at taken
    · cases taken
    · split at taken
      · cases taken
      · next kept =>
        split at taken
        · cases taken
        · next positive =>
          rcases packetVerdict_cases (lengthAt bytes).toNat bytes with
            ⟨_, ended⟩ | ⟨enough, ⟨other, _⟩ | other | other | other | ⟨message, _⟩⟩
          · rw [ended] at taken
            cases taken
          case inr.inr.inr.inr.inr =>
            rw [message] at taken
            have same : (bytes.drop 16).take (lengthAt bytes).toNat = payload := by
              injection taken
            have count : payload.length = (lengthAt bytes).toNat := by
              rw [← same, List.length_take, List.length_drop]
              omega
            refine ⟨matched, kept, by omega, by omega, by omega, ?_⟩
            rw [count, message, same]
          all_goals
            rw [other] at taken
            cases taken

/-- When an envelope is taken. -/
theorem verdict_envelope {count : Nat} (taken : verdict conf bytes = .envelope count) :
    mismatch syncHead bytes = none ∧ 0 < lengthAt bytes ∧ lengthAt bytes + 24 = count ∧
      count ≤ bytes.length := by
  unfold verdict at taken
  split at taken
  · cases taken
  · next matched =>
    split at taken
    · cases taken
    · split at taken
      · cases taken
      · split at taken
        · cases taken
        · next positive =>
          rcases packetVerdict_cases (lengthAt bytes).toNat bytes with
            ⟨_, ended⟩ | ⟨enough, ⟨other, _⟩ | other | envelope | other | ⟨other, _⟩⟩
          · rw [ended] at taken
            cases taken
          case inr.inr.inr.inl =>
            rw [envelope] at taken
            have same : (lengthAt bytes).toNat + 24 = count := by injection taken
            exact ⟨matched, by omega, by omega, by omega⟩
          all_goals
            rw [other] at taken
            cases taken

/-- A packet that is taken is a well-formed frame. -/
theorem wellFormed_of_message (taken : verdict conf bytes = .message payload) :
    WellFormed conf (bytes.take (payload.length + 24)) payload := by
  obtain ⟨matched, kept, positive, count, enough, packet⟩ := verdict_message taken
  have length : (bytes.take (payload.length + 24)).length = payload.length + 24 := by
    rw [List.length_take]
    omega
  have words : ∀ place, place + 4 ≤ payload.length + 24 →
      wordAt (bytes.take (payload.length + 24)) place = wordAt bytes place := fun place inside => by
    conv_rhs => rw [← List.take_append_drop (payload.length + 24) bytes]
    rw [wordAt_append (by rw [length]; exact inside)]
  have fields : ∀ place, place < payload.length + 24 →
      (bytes.take (payload.length + 24)).getD place 0 = bytes.getD place 0 :=
    fun place inside => by
      conv_rhs => rw [← List.take_append_drop (payload.length + 24) bytes]
      rw [getD_append (by rw [length]; exact inside)]
  unfold Dropped at kept
  rw [not_or, not_or, not_not] at kept
  rcases packetVerdict_cases payload.length bytes with
    ⟨_, other⟩ | ⟨_, ⟨other, _⟩ | other | other | other | ⟨message, tail, crc, plain⟩⟩
  case inr.inr.inr.inr.inr =>
    rw [message] at packet
    have body : (bytes.drop 16).take payload.length = payload := by injection packet
    rw [body] at crc
    exact
      { length := length
        sync := by
          rw [List.take_take, Nat.min_eq_left (by omega)]
          exact mismatch_none matched
            (Nat.le_trans (Nat.le_add_left 4 (payload.length + 20)) enough)
        xor := by rw [words 4 (by omega), words 8 (by omega), words 12 (by omega), kept.2.1]
        count := by
          unfold lengthAt at count ⊢
          rw [fields 4 (by omega), fields 5 (by omega), count]
        nonempty := by omega
        fits := by omega
        plain := by rw [fields 7 (by omega), plain]
        body := by
          rw [List.drop_take, List.take_take, Nat.min_eq_left (by omega), body]
        crc := by rw [words _ (by omega), crc]
        tail := by rw [words _ (by omega), tail] }
  all_goals
    rw [other] at packet
    cases packet

/-! ### Bytes behind a place -/

theorem lengthAt_append (header : 16 ≤ bytes.length) :
    lengthAt (bytes ++ rest) = lengthAt bytes := by
  rw [lengthAt, lengthAt, getD_append (by omega), getD_append (by omega)]

theorem mismatch_some_append {marks : Bytes} {count : Nat} (inside : count ≤ bytes.length) :
    mismatch marks (bytes ++ rest) = some count ↔ mismatch marks bytes = some count := by
  induction marks generalizing bytes count with
  | nil => exact Iff.rfl
  | cons mark marks inductionHypothesis =>
    cases bytes with
    | nil =>
      refine iff_of_false (fun found => ?_) fun found => by cases found
      have bounds := mismatch_bounds found
      rw [List.length_nil] at inside
      omega
    | cons byte bytes =>
      rw [List.cons_append, mismatch, mismatch]
      split
      · cases count with
        | zero => simp
        | succ count =>
          rw [List.length_cons] at inside
          have rest := @inductionHypothesis bytes count (Nat.le_of_succ_le_succ inside)
          simp [rest]
      · exact Iff.rfl

theorem mismatch_none_append {marks : Bytes} (enough : marks.length ≤ bytes.length) :
    mismatch marks (bytes ++ rest) = none ↔ mismatch marks bytes = none := by
  induction marks generalizing bytes with
  | nil => exact Iff.rfl
  | cons mark marks inductionHypothesis =>
    cases bytes with
    | nil => cases enough
    | cons byte bytes =>
      rw [List.cons_append, mismatch, mismatch]
      split
      · rw [Option.map_eq_none_iff, Option.map_eq_none_iff]
        exact inductionHypothesis (Nat.le_of_succ_le_succ enough)
      · exact Iff.rfl

theorem dropped_append (plenty : conf.Plenty) (header : 16 ≤ bytes.length) :
    Dropped conf (bytes ++ rest) ↔ Dropped conf bytes := by
  have there : ∀ left, conf.memalign left ≠ none := fun left nowhere => by
    obtain ⟨fresh, given⟩ := plenty left
    rw [nowhere] at given
    cases given
  unfold Dropped
  rw [lengthAt_append header, wordAt_append (by omega), wordAt_append (by omega),
    wordAt_append (by omega)]
  simp only [there, and_false]

/-- What follows the bytes that the search passes does not matter. -/
theorem verdict_skip_append {count : Nat} (plenty : conf.Plenty) (inside : count ≤ bytes.length) :
    verdict conf (bytes ++ rest) = .skip count ↔ verdict conf bytes = .skip count := by
  rw [verdict_skip_iff, verdict_skip_iff, mismatch_some_append inside]
  refine or_congr_right ?_
  by_cases header : 16 ≤ bytes.length
  · have words : ∀ place, place + 4 ≤ count → wordAt (bytes ++ rest) place = wordAt bytes place :=
      fun place within => wordAt_append (Nat.le_trans within inside)
    have longer : 16 ≤ (bytes ++ rest).length ∧ count ≤ (bytes ++ rest).length := by
      rw [List.length_append]
      omega
    rw [mismatch_none_append (Nat.le_trans (by decide) header), dropped_append plenty header,
      lengthAt_append header]
    refine and_congr_right fun _ => ?_
    simp only [longer, header, inside, true_and]
    refine or_congr_right (and_congr_right fun _ => and_congr_right fun _ => ?_)
    refine and_congr_right fun same => ?_
    rw [words _ (by omega)]
  · refine iff_of_false ?_ fun passed => header passed.2.1
    rintro ⟨_, _, ⟨_, rfl⟩ | ⟨_, _, rfl, _⟩⟩
    · exact header inside
    · omega

/-- The search passes some bytes whole exactly if it does so without what follows them. -/
theorem comes_append_iff (plenty : conf.Plenty) (bytes rest : Bytes) :
    Comes (search conf) (bytes ++ rest) rest ↔ Comes (search conf) bytes [] := by
  constructor
  · generalize stream : bytes ++ rest = place
    intro way
    induction way generalizing bytes with
    | here =>
      rw [List.append_left_eq_self.mp stream]
      exact .here
    | further taken way inductionHypothesis =>
      obtain ⟨count, skips, rfl, _⟩ := search_some taken
      have reached := (comes_suffix way).length_le
      have bounds := verdict_skip skips
      rw [← stream, List.length_append] at bounds
      rw [← stream, List.length_drop, List.length_append] at reached
      have inside : count ≤ bytes.length := by omega
      rw [← stream, verdict_skip_append plenty inside] at skips
      refine .further (search_of_skip skips) (inductionHypothesis (bytes.drop count) ?_)
      rw [← stream, List.drop_append_of_le_length inside]
  · generalize nothing : ([] : Bytes) = last
    intro way
    induction way with
    | here =>
      rw [← nothing, List.nil_append]
      exact .here
    | further taken _ inductionHypothesis =>
      obtain ⟨count, skips, rfl, _⟩ := search_some taken
      have inside := (verdict_skip skips).2
      rw [← verdict_skip_append plenty inside] at skips
      refine .further (search_of_skip skips) ?_
      rw [List.drop_append_of_le_length inside]
      exact inductionHypothesis nothing

/-! ### Frames in a stream -/

theorem wordOf_lt (bytes : Bytes) : wordOf bytes < 2 ^ 32 := by
  unfold wordOf
  split
  · next first second third fourth =>
    have firstBound := first.toNat_lt
    have secondBound := second.toNat_lt
    have thirdBound := third.toNat_lt
    have fourthBound := fourth.toNat_lt
    omega
  · decide

/-- The length in the header of a frame. It is that of the message if it has room there. -/
theorem lengthAt_frame (payload rest : Bytes) (msgType encryptType : UInt8) :
    lengthAt (frame payload msgType encryptType ++ rest) =
      ((payload.length + 14) % 2 ^ 16 : Nat) - 14 := by
  have low : (frame payload msgType encryptType ++ rest).getD 4 0 =
      UInt8.ofNat ((payload.length + 14) % 2 ^ 16) := rfl
  have high : (frame payload msgType encryptType ++ rest).getD 5 0 =
      UInt8.ofNat ((payload.length + 14) % 2 ^ 16 / 2 ^ 8) := rfl
  unfold lengthAt
  rw [low, high, UInt8.toNat_ofNat', UInt8.toNat_ofNat']
  omega

theorem mismatch_frame (payload rest : Bytes) (msgType encryptType : UInt8) :
    mismatch syncHead (frame payload msgType encryptType ++ rest) = none := rfl

/-- The check of the header passes. -/
theorem xor_frame (payload rest : Bytes) (msgType encryptType : UInt8) :
    wordAt (frame payload msgType encryptType ++ rest) 4 ^^^
        wordAt (frame payload msgType encryptType ++ rest) 8 =
      wordAt (frame payload msgType encryptType ++ rest) 12 := by
  have small : wordOf (lengthWord payload.length msgType) ^^^ wordOf [encryptType, 0, 0, 0] <
      2 ^ 32 := Nat.xor_lt_two_pow (wordOf_lt _) (wordOf_lt _)
  exact (wordOf_wordBytes small).symm

/-- What stands behind the header of a frame. -/
theorem drop_frame (payload rest : Bytes) (msgType encryptType : UInt8) :
    (frame payload msgType encryptType ++ rest).drop 16 =
      payload ++ (wordBytes (tabCrc32 payload).toNat ++ (wordBytes pktTail ++ rest)) := by
  rw [frame, List.append_assoc, List.append_assoc, List.append_assoc]
  exact List.drop_left' (header_length payload.length msgType encryptType)

/-- Of a frame that is too long only the header is passed. -/
theorem search_long {msgType encryptType : UInt8} (short : payload.length ≤ 65521)
    (long : conf.bufLen < payload.length + 36) (rest : Bytes) :
    search conf (frame payload msgType encryptType ++ rest) =
      some (payload ++ (wordBytes (tabCrc32 payload).toNat ++ (wordBytes pktTail ++ rest))) := by
  have drops : Dropped conf (frame payload msgType encryptType ++ rest) := by
    refine .inl ?_
    rw [lengthAt_frame, Nat.mod_eq_of_lt (by omega)]
    omega
  have skips : verdict conf (frame payload msgType encryptType ++ rest) = .skip 16 := by
    refine verdict_skip_iff.mpr (.inr ⟨mismatch_frame _ _ _ _, ?_, .inl ⟨drops, rfl⟩⟩)
    rw [List.length_append, frame_length]
    omega
  rw [search_of_skip skips, drop_frame]

/-- What is to be made of a frame that has a message and fits. -/
theorem verdict_frame_fits {msgType encryptType : UInt8} (plenty : conf.Plenty)
    (nonempty : 1 ≤ payload.length) (short : payload.length ≤ 65521)
    (fits : payload.length ≤ conf.bufLen - 36) (rest : Bytes) :
    verdict conf (frame payload msgType encryptType ++ rest) =
      if msgType = gtCmdNoAuth then .message payload
      else if msgType = msgAuthSsl then .envelope (payload.length + 24)
      else .unknown (payload.length + 24) := by
  have length : (frame payload msgType encryptType ++ rest).length =
      payload.length + 24 + rest.length := by rw [List.length_append, frame_length]
  have count : lengthAt (frame payload msgType encryptType ++ rest) = payload.length := by
    rw [lengthAt_frame, Nat.mod_eq_of_lt (by omega)]
    omega
  have room := conf.room
  have kept : ¬Dropped conf (frame payload msgType encryptType ++ rest) := by
    unfold Dropped
    rw [count]
    rintro (long | broken | ⟨_, nowhere⟩)
    · omega
    · exact broken (xor_frame payload rest msgType encryptType)
    · obtain ⟨fresh, there⟩ := plenty ((frame payload msgType encryptType ++ rest).length - 16)
      rw [there] at nowhere
      cases nowhere
  have behind := drop_frame payload rest msgType encryptType
  have body : ((frame payload msgType encryptType ++ rest).drop 16).take payload.length =
      payload := by rw [behind, List.take_left]
  have crc : wordAt (frame payload msgType encryptType ++ rest) (payload.length + 16) =
      (tabCrc32 payload).toNat := by
    rw [wordAt, Nat.add_comm, ← List.drop_drop, behind, List.drop_left]
    exact wordOf_wordBytes (tabCrc32 payload).toNat_lt
  have tail : wordAt (frame payload msgType encryptType ++ rest) (payload.length + 20) =
      pktTail := by
    have split : payload.length + 20 = 16 + (payload.length + 4) := by omega
    rw [wordAt, split, ← List.drop_drop, behind, ← List.drop_drop, List.drop_left]
    exact wordOf_wordBytes (by decide)
  have type : (frame payload msgType encryptType ++ rest).getD 7 0 = msgType := rfl
  unfold verdict
  rw [mismatch_frame]
  simp only
  rw [if_neg (by omega), if_neg kept, if_neg (by omega), count, Int.toNat_natCast, packetVerdict,
    if_neg (by omega), if_neg (not_not.mpr tail), body, if_neg (not_not.mpr crc.symm), type]

/-- A frame that has a message and fits is taken. -/
theorem verdict_frame {encryptType : UInt8} (plenty : conf.Plenty) (nonempty : 1 ≤ payload.length)
    (short : payload.length ≤ 65521) (fits : payload.length ≤ conf.bufLen - 36) (rest : Bytes) :
    verdict conf (frame payload gtCmdNoAuth encryptType ++ rest) = .message payload :=
  (verdict_frame_fits plenty nonempty short fits rest).trans (if_pos rfl)

/-- An envelope that fits is taken as one. -/
theorem verdict_sealed {encryptType : UInt8} (plenty : conf.Plenty) (nonempty : 1 ≤ payload.length)
    (short : payload.length ≤ 65521) (fits : payload.length ≤ conf.bufLen - 36) (rest : Bytes) :
    verdict conf (frame payload msgAuthSsl encryptType ++ rest) = .envelope (payload.length + 24) :=
  (verdict_frame_fits plenty nonempty short fits rest).trans rfl

end Frames

/-! ### Bytes that are passed -/

/-- The beginning of a mark and one byte that does not fit it. -/
def Stray (piece : Bytes) : Prop :=
  ∃ front mark marks byte, syncHead = front ++ mark :: marks ∧ byte ≠ mark ∧ piece = front ++ [byte]

/-- The header of a packet that is too long, or one that is damaged. -/
def LostHeader (bufLen : Nat) (piece : Bytes) : Prop :=
  piece.take 4 = syncHead ∧ piece.length = 16 ∧
    ((bufLen : Int) < lengthAt piece + 36 ∨
      wordAt piece 4 ^^^ wordAt piece 8 ≠ wordAt piece 12)

/-- A packet that fits, without its end mark. -/
def Endless (bufLen : Nat) (piece : Bytes) : Prop :=
  piece.take 4 = syncHead ∧ 24 < piece.length ∧ piece.length ≤ bufLen - 12 ∧
    lengthAt piece = piece.length - 24 ∧
    wordAt piece 4 ^^^ wordAt piece 8 = wordAt piece 12 ∧ wordAt piece (piece.length - 4) ≠ pktTail

/-- Some bytes cut into pieces of these three kinds. -/
structure Cut (bufLen : Nat) (bytes : Bytes) (pieces : List Bytes) : Prop where
  whole : pieces.flatten = bytes
  kinds : ∀ piece ∈ pieces, Stray piece ∨ LostHeader bufLen piece ∨ Endless bufLen piece

section Pieces

variable {conf : Conf} {bytes rest piece : Bytes}

/-- The mark is found where it stands. -/
theorem mismatch_of_take {marks : Bytes} (there : bytes.take marks.length = marks) :
    mismatch marks bytes = none := by
  induction marks generalizing bytes with
  | nil => rfl
  | cons mark marks inductionHypothesis =>
    cases bytes with
    | nil => cases there
    | cons byte bytes =>
      rw [List.length_cons, List.take_succ_cons] at there
      obtain ⟨same, rest⟩ := List.cons.inj there
      rw [mismatch, if_pos same, inductionHypothesis rest]
      rfl

theorem mismatch_all_iff {marks : Bytes} :
    mismatch marks bytes = some bytes.length ↔
      ∃ front mark behind byte, marks = front ++ mark :: behind ∧ byte ≠ mark ∧
        bytes = front ++ [byte] := by
  induction marks generalizing bytes with
  | nil =>
    refine iff_of_false (fun found => by cases found) ?_
    rintro ⟨front, mark, behind, byte, split, _⟩
    exact absurd split.symm (List.append_ne_nil_of_right_ne_nil _ (List.cons_ne_nil _ _))
  | cons mark marks inductionHypothesis =>
    cases bytes with
    | nil =>
      refine iff_of_false (fun found => by cases found) ?_
      rintro ⟨front, _, _, byte, _, _, split⟩
      exact absurd split.symm (List.append_ne_nil_of_right_ne_nil _ (List.cons_ne_nil _ _))
    | cons byte bytes =>
      rw [mismatch, List.length_cons]
      by_cases same : byte = mark
      · rw [if_pos same, Option.map_eq_some_iff]
        constructor
        · rintro ⟨count, found, length⟩
          rw [Nat.succ.inj length] at found
          obtain ⟨front, other, behind, last, split, differs, rfl⟩ := inductionHypothesis.mp found
          exact ⟨mark :: front, other, behind, last, by rw [split]; rfl, differs, by rw [same]; rfl⟩
        · rintro ⟨front, other, behind, last, split, differs, whole⟩
          cases front with
          | nil =>
            cases split
            cases whole
            exact absurd same differs
          | cons first front =>
            cases split
            obtain ⟨_, rfl⟩ := List.cons.inj whole
            exact ⟨_, inductionHypothesis.mpr ⟨front, other, behind, last, rfl, differs, rfl⟩, rfl⟩
      · rw [if_neg same]
        constructor
        · intro length
          have nothing : bytes = [] := List.length_eq_zero_iff.mp (Nat.succ.inj
            (Option.some.inj length)).symm
          exact ⟨[], mark, marks, byte, rfl, same, by rw [nothing]; rfl⟩
        · rintro ⟨front, other, behind, last, split, differs, whole⟩
          cases front with
          | nil =>
            cases whole
            rfl
          | cons first front =>
            cases split
            exact absurd (List.cons.inj whole).1 same

/-- The search passes a piece whole exactly if it is of one of the three kinds. -/
theorem verdict_piece_iff (plenty : conf.Plenty) :
    verdict conf piece = .skip piece.length ↔
      Stray piece ∨ LostHeader conf.bufLen piece ∨ Endless conf.bufLen piece := by
  have matched (enough : 16 ≤ piece.length) :
      mismatch syncHead piece = none ↔ piece.take 4 = syncHead :=
    ⟨fun found => mismatch_none found (Nat.le_trans (by decide) enough),
      fun found => @mismatch_of_take piece syncHead found⟩
  have there : ∀ left, conf.memalign left ≠ none := fun left nowhere => by
    obtain ⟨fresh, given⟩ := plenty left
    rw [nowhere] at given
    cases given
  have drops : Dropped conf piece ↔ (conf.bufLen : Int) < lengthAt piece + 36 ∨
      wordAt piece 4 ^^^ wordAt piece 8 ≠ wordAt piece 12 := by
    unfold Dropped
    simp only [there, and_false, or_false]
  have room := conf.room
  rw [verdict_skip_iff, mismatch_all_iff]
  refine or_congr Iff.rfl ?_
  constructor
  · rintro ⟨found, enough, ⟨dropped, length⟩ | ⟨kept, positive, length, _, tail⟩⟩
    · exact .inl ⟨(matched enough).mp found, length, drops.mp dropped⟩
    · rw [drops, not_or, not_not] at kept
      refine .inr ⟨(matched enough).mp found, by omega, by omega, by omega, kept.2, ?_⟩
      rwa [show piece.length - 4 = (lengthAt piece).toNat + 20 by omega]
  · rintro (⟨found, length, lost⟩ | ⟨found, long, fits, count, whole, tail⟩)
    · have enough : 16 ≤ piece.length := by omega
      exact ⟨(matched enough).mpr found, enough, .inl ⟨drops.mpr lost, length⟩⟩
    · have enough : 16 ≤ piece.length := by omega
      refine ⟨(matched enough).mpr found, enough, .inr ⟨?_, by omega, by omega, Nat.le_refl _, ?_⟩⟩
      · rw [drops, not_or, not_not]
        exact ⟨by omega, whole⟩
      · rwa [show (lengthAt piece).toNat + 20 = piece.length - 4 by omega]

/-- A piece is passed whatever follows it. -/
theorem search_piece (plenty : conf.Plenty)
    (kind : Stray piece ∨ LostHeader conf.bufLen piece ∨ Endless conf.bufLen piece) :
    search conf (piece ++ rest) = some rest := by
  have skips := (verdict_piece_iff plenty).mpr kind
  rw [search_of_skip ((verdict_skip_append plenty (Nat.le_refl _)).mpr skips), List.drop_left]

/-- The search comes to the end of some bytes exactly if they can be cut into such pieces. -/
theorem comes_nil_iff (plenty : conf.Plenty) :
    Comes (search conf) bytes [] ↔ ∃ pieces, Cut conf.bufLen bytes pieces := by
  constructor
  · generalize nothing : ([] : Bytes) = last
    intro way
    induction way with
    | here =>
      rw [← nothing]
      exact ⟨[], rfl, fun _ member => by cases member⟩
    | @further place next last taken _ inductionHypothesis =>
      obtain ⟨pieces, whole, kinds⟩ := inductionHypothesis nothing
      obtain ⟨count, skips, rfl, _⟩ := search_some taken
      have inside := (verdict_skip skips).2
      have length : (place.take count).length = count := by
        rw [List.length_take]
        omega
      have first : verdict conf (place.take count) = .skip (place.take count).length := by
        rw [length, ← verdict_skip_append plenty (by rw [length]), List.take_append_drop]
        exact skips
      refine ⟨place.take count :: pieces, ?_, fun piece member => ?_⟩
      · rw [List.flatten_cons, whole, List.take_append_drop]
      · rcases List.mem_cons.mp member with rfl | later
        · exact (verdict_piece_iff plenty).mp first
        · exact kinds piece later
  · rintro ⟨pieces, whole, kinds⟩
    induction pieces generalizing bytes with
    | nil =>
      rw [← whole]
      exact .here
    | cons piece pieces inductionHypothesis =>
      rw [← whole, List.flatten_cons]
      exact .further (search_piece plenty (kinds piece List.mem_cons_self))
        (inductionHypothesis rfl fun other member => kinds other (List.mem_cons_of_mem _ member))

end Pieces

end ExmOnvif.GtComApi
