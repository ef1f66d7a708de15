/-
This file models how a packet is received, with the buffers that the receiver uses and
the pieces in which the stream arrives, and proves that it does what is to be made of
the stream.

The header is read into the buffer of the caller or, if the caller wants to know the
types of the packet, into a local one. A packet that is too long for the local buffer
gets a block of its own. The block stays in use when the search goes on behind the
packet, while the headers are still read into the first buffer. A write outside a
buffer has no result.
-/

import ExmOnvif.GtComApi.Wire

namespace ExmOnvif.GtComApi

open Library

/-! ### The connection -/

/-- What arrives at a connection until its end, in the pieces that the reads find. A read that is
interrupted finds an empty piece. -/
abbrev Socket := List Bytes

/-- `net_read_buf`: the bytes that it stores, and what is left unless the stream has ended. -/
def netReadBuf : Nat → Socket → Bytes × Option Socket
  | 0, socket => ([], some socket)
  | _ + 1, [] => ([], none)
  | left + 1, piece :: socket =>
    if piece.length ≤ left + 1 then
      (piece ++ (netReadBuf (left + 1 - piece.length) socket).1,
        (netReadBuf (left + 1 - piece.length) socket).2)
    else (piece.take (left + 1), some (piece.drop (left + 1) :: socket))

/-! ### The receiver -/

/-- The buffers: that of the caller, the local one, and the block with its size. -/
structure Buffers where
  recv : Memory
  tbuf : Memory
  block : Option (Memory × Nat)

/-- The pointers `head` and `s`. -/
inductive Pointer where
  | head
  | s
deriving DecidableEq, Repr

/-- What a call leaves behind. The length and the types are those of the packet; the types go to
the caller if the pointers for them are given. -/
structure Exit where
  errflag : Int
  recv : Memory
  rest : Socket
  pktLen : Nat
  msgType : UInt8
  encryptType : UInt8

/-- What comes of a part of the function: a jump to `getheader`, or the end of the call. -/
abbrev Outcome := Option ((Buffers × Socket) ⊕ Exit)

/-- `goto getheader`. -/
def getheader (buffers : Buffers) (socket : Socket) : Outcome := some (.inl (buffers, socket))

/-- `goto exit` with an error. -/
def failed (errflag : Int) (buffers : Buffers) (socket : Socket) : Outcome :=
  some (.inr ⟨errflag, buffers.recv, socket, 0, 0, 0⟩)

namespace Buffers

variable (conf : Conf) (buffers : Buffers)

/-- The buffer with the header. -/
def headBuffer : Memory := if conf.given then buffers.tbuf else buffers.recv

/-- The memory behind a pointer. -/
def memory : Pointer → Memory
  | .head => buffers.headBuffer conf
  | .s =>
    match buffers.block with
    | some (block, _) => block
    | none => buffers.headBuffer conf

/-- The size of the memory behind a pointer. -/
def size : Pointer → Nat
  | .head => if conf.given then tmpbufLen else conf.bufLen
  | .s =>
    match buffers.block with
    | some (_, size) => size
    | none => if conf.given then tmpbufLen else conf.bufLen

/-- The buffer with the header after a write. -/
def setHeadBuffer (memory : Memory) : Buffers :=
  if conf.given then { buffers with tbuf := memory } else { buffers with recv := memory }

/-- The buffers after a write through a pointer. -/
def write (memory : Memory) : Pointer → Buffers
  | .head => buffers.setHeadBuffer conf memory
  | .s =>
    match buffers.block with
    | some (_, size) => { buffers with block := some (memory, size) }
    | none => buffers.setHeadBuffer conf memory

/-- The buffers with some bytes stored from a place on. -/
def stored (pointer : Pointer) (place : Nat) (bytes : Bytes) : Buffers :=
  buffers.write conf (store (buffers.memory conf pointer) place bytes) pointer

end Buffers

section Receiver

variable (conf : Conf)

/-- A call of `net_read_buf` and the check `judge_exit` behind it. -/
def readInto (pointer : Pointer) (place count : Nat) (buffers : Buffers) (socket : Socket)
    (next : Buffers → Socket → Outcome) : Outcome :=
  if place + count ≤ buffers.size conf pointer then
    match netReadBuf count socket with
    | (bytes, none) => failed (-140) (buffers.stored conf pointer place bytes) []
    | (bytes, some rest) => next (buffers.stored conf pointer place bytes) rest
  else none

/-- The bytes of the mark are read one by one. -/
def readSync (next : Buffers → Socket → Outcome) :
    Bytes → Nat → Buffers → Socket → Outcome
  | [], _, buffers, socket => next buffers socket
  | mark :: marks, place, buffers, socket =>
    readInto conf .head place 1 buffers socket fun buffers socket =>
      if buffers.memory conf .head place ≠ mark then getheader buffers socket
      else readSync next marks (place + 1) buffers socket

/-- The call of `env_unpack`, with the buffer of the caller as the header has been copied there. -/
def unpacked (buffers : Buffers) : Int × Memory :=
  let s := buffers.memory conf .s
  let recv := store buffers.recv 0 (load s 0 headSize)
  -- The type and the length are those of the header as it is after the copy.
  let head := if conf.given then buffers.tbuf else recv
  let elen : Int := ((head 4).toNat + 2 ^ 8 * (head 5).toNat : Nat) + 2 + 4 - 4 - headSize
  conf.envUnpack (head 8) (load s headSize elen.toNat) conf.bufLen recv

/-- What is done with an envelope. -/
def openEnvelope (pktLen : Nat) (buffers : Buffers) (socket : Socket) : Outcome :=
  let head := buffers.memory conf .head
  if (unpacked conf buffers).1 ≠ 0 then
    failed (-5) { buffers with recv := (unpacked conf buffers).2 } socket
  else some (.inr ⟨0, (unpacked conf buffers).2, socket, pktLen, head 7, head 8⟩)

/-- What is done with a packet that has been read. -/
def checkPacket (pktLen : Nat) (buffers : Buffers) (socket : Socket) : Outcome :=
  let s := buffers.memory conf .s
  let head := buffers.memory conf .head
  if getUnaligned s (headSize + pktLen + 4) ≠ pktTail then getheader buffers socket
  else if (tabCrc32 (load s headSize pktLen)).toNat ≠ getUnaligned s (headSize + pktLen) then
    failed (-3) buffers socket
  else if head 7 = gtCmdNoAuth then
    if conf.given = false ∧ buffers.block = none then
      some (.inr ⟨0, buffers.recv, socket, pktLen, head 7, head 8⟩)
    else if headSize + pktLen + 4 + 4 ≤ conf.bufLen then
      some (.inr ⟨0, store buffers.recv 0 (load s 0 (headSize + pktLen + 4 + 4)), socket, pktLen,
        head 7, head 8⟩)
    else none
  else if head 7 = msgAuthSsl then openEnvelope conf pktLen buffers socket
  else failed (-4) buffers socket

/-- The reads of a packet behind its header. With no length `net_read_buf` returns 0. -/
def readPacket (pktLen : Int) (buffers : Buffers) (socket : Socket) : Outcome :=
  if pktLen ≤ 0 then failed (-140) buffers socket
  else
    readInto conf .s headSize pktLen.toNat buffers socket fun buffers socket =>
    readInto conf .s (headSize + pktLen.toNat) 4 buffers socket fun buffers socket =>
    readInto conf .s (headSize + pktLen.toNat + 4) 4 buffers socket fun buffers socket =>
    checkPacket conf pktLen.toNat buffers socket

/-- The checks of a header, and the block for a long packet. -/
def checkHead (buffers : Buffers) (socket : Socket) : Outcome :=
  let head := buffers.memory conf .head
  let pktLen : Int := ((head 4).toNat + 2 ^ 8 * (head 5).toNat : Nat) - headSize + 4 + 2 - 4
  if (conf.bufLen : Int) < pktLen + headSize + 20 then getheader buffers socket
  else if getUnaligned head 4 ^^^ getUnaligned head 8 ≠ getUnaligned head 12 then
    getheader buffers socket
  else if (tmpbufLen : Int) < pktLen + headSize + ebufAddon then
    match conf.memalign socket.flatten.length with
    | none => getheader buffers socket
    | some fresh =>
      let block := store fresh 0 (load (buffers.memory conf .s) 0 headSize)
      readPacket conf pktLen
        { buffers with block := some (block, (pktLen + headSize + ebufAddon).toNat) } socket
  else readPacket conf pktLen buffers socket

/-- The function from `getheader` on, up to a jump back or its end. -/
def fromGetheader (state : Buffers × Socket) : Outcome :=
  readSync conf
    (fun buffers socket => readInto conf .head 4 (headSize - 4) buffers socket (checkHead conf))
    syncHead 0 state.1 state.2

/-- `gt_cmd_pkt_recv_env`. Every turn reads a byte, so that there are no more turns than bytes,
but for the last one. -/
def gtCmdPktRecvEnv (recv tbuf : Memory) (socket : Socket) : Option Exit :=
  scan (fromGetheader conf) (socket.flatten.length + 1) (⟨recv, tbuf, none⟩, socket)

end Receiver

/-! ### Reads -/

theorem netReadBuf_enough {count : Nat} {socket : Socket}
    (enough : count ≤ socket.flatten.length) :
    ∃ rest, netReadBuf count socket = (socket.flatten.take count, some rest) ∧
      rest.flatten = socket.flatten.drop count := by
  induction socket generalizing count with
  | nil =>
    rw [List.flatten_nil, List.length_nil] at enough
    rw [Nat.le_zero.mp enough]
    exact ⟨[], rfl, rfl⟩
  | cons piece socket inductionHypothesis =>
    cases count with
    | zero => exact ⟨piece :: socket, rfl, rfl⟩
    | succ left =>
      rw [List.flatten_cons, List.length_append] at enough
      rw [netReadBuf, List.flatten_cons]
      split
      · next whole =>
        obtain ⟨rest, read, left_⟩ := @inductionHypothesis (left + 1 - piece.length) (by omega)
        refine ⟨rest, ?_, ?_⟩
        · rw [read, List.take_append, List.take_of_length_le whole]
        · rw [left_, List.drop_append, List.drop_of_length_le whole, List.nil_append]
      · next part =>
        refine ⟨piece.drop (left + 1) :: socket, ?_, ?_⟩
        · rw [List.take_append_of_le_length (by omega)]
        · rw [List.flatten_cons, List.drop_append_of_le_length (by omega)]

theorem netReadBuf_ended {count : Nat} {socket : Socket}
    (few : socket.flatten.length < count) : (netReadBuf count socket).2 = none := by
  induction socket generalizing count with
  | nil =>
    cases count with
    | zero => cases few
    | succ left => rfl
  | cons piece socket inductionHypothesis =>
    cases count with
    | zero => cases few
    | succ left =>
      rw [List.flatten_cons, List.length_append] at few
      rw [netReadBuf, if_pos (by omega)]
      exact inductionHypothesis (by omega)

/-! ### Buffers -/

namespace Buffers

variable {conf : Conf} {buffers : Buffers} {place : Nat} {bytes : Bytes}

/-- The size of the block. -/
def blockSize (buffers : Buffers) : Option Nat := buffers.block.map Prod.snd

/-- A block is longer than the local buffer. -/
def Safe (buffers : Buffers) : Prop := ∀ size ∈ buffers.blockSize, tmpbufLen < size

theorem headBuffer_set (memory : Memory) :
    (buffers.setHeadBuffer conf memory).headBuffer conf = memory := by
  unfold setHeadBuffer headBuffer
  split
  · rfl
  · rfl

theorem setHeadBuffer_block (memory : Memory) :
    (buffers.setHeadBuffer conf memory).block = buffers.block := by
  unfold setHeadBuffer
  split
  · rfl
  · rfl

theorem stored_blockSize (pointer : Pointer) :
    (buffers.stored conf pointer place bytes).blockSize = buffers.blockSize := by
  unfold stored write blockSize
  cases pointer with
  | head => rw [setHeadBuffer_block]
  | s =>
    cases held : buffers.block with
    | none =>
      simp only
      rw [setHeadBuffer_block, held]
    | some block => rfl

theorem Safe.stored (safe : buffers.Safe) (pointer : Pointer) :
    (buffers.stored conf pointer place bytes).Safe := by
  unfold Safe
  rwa [stored_blockSize]

theorem size_eq (pointer : Pointer) :
    buffers.size conf pointer =
      match pointer with
      | .head => if conf.given then tmpbufLen else conf.bufLen
      | .s => buffers.blockSize.getD (if conf.given then tmpbufLen else conf.bufLen) := by
  unfold size blockSize
  cases pointer with
  | head => rfl
  | s => cases buffers.block <;> rfl

theorem stored_size (pointer other : Pointer) :
    (buffers.stored conf pointer place bytes).size conf other = buffers.size conf other := by
  rw [size_eq, size_eq, stored_blockSize]

/-- What is written through a pointer is read through it. -/
theorem memory_stored (pointer : Pointer) :
    (buffers.stored conf pointer place bytes).memory conf pointer =
      store (buffers.memory conf pointer) place bytes := by
  unfold stored
  cases pointer with
  | head => exact headBuffer_set _
  | s =>
    unfold write
    cases held : buffers.block with
    | none =>
      simp only [memory, setHeadBuffer_block, held]
      exact headBuffer_set _
    | some block => rfl

/-- A write behind the header does not change it. -/
theorem head_stored {address : Nat} (front : address < place) :
    (buffers.stored conf .s place bytes).memory conf .head address =
      buffers.memory conf .head address := by
  unfold stored write
  cases held : buffers.block with
  | none =>
    simp only [memory, held, headBuffer_set]
    exact store_outside (.inl front)
  | some block => rfl

end Buffers

/-! ### A read and what follows -/

section Reads

variable {conf : Conf} {buffers : Buffers} {socket : Socket} {pointer : Pointer}
  {place count : Nat} {next : Buffers → Socket → Outcome}

/-- A read that has room gives the bytes and goes on, or the stream has ended. -/
theorem readInto_cases (fits : place + count ≤ buffers.size conf pointer) :
    count ≤ socket.flatten.length ∧
        (∃ rest, rest.flatten = socket.flatten.drop count ∧
          readInto conf pointer place count buffers socket next =
            next (buffers.stored conf pointer place (socket.flatten.take count)) rest) ∨
      socket.flatten.length < count ∧
        ∃ exit, readInto conf pointer place count buffers socket next = some (.inr exit) ∧
          exit.errflag = -140 ∧ exit.rest = [] := by
  unfold readInto
  rw [if_pos fits]
  rcases Nat.lt_or_ge socket.flatten.length count with few | enough
  · refine .inr ⟨few, ?_⟩
    have ended := netReadBuf_ended few
    generalize netReadBuf count socket = read at ended
    obtain ⟨bytes, rest⟩ := read
    simp only at ended
    rw [ended]
    exact ⟨_, rfl, rfl, rfl⟩
  · obtain ⟨rest, read, left⟩ := netReadBuf_enough enough
    exact .inl ⟨enough, rest, left, by rw [read]⟩

end Reads

/-! ### The receiver follows the search -/

/-- A call ends as it should at a place of the stream. -/
def Gives (conf : Conf) (bytes : Bytes) (exit : Exit) : Prop :=
  match verdict conf bytes with
  | .skip _ => False
  | .ended => exit.errflag = -140 ∧ exit.rest.flatten = []
  | .short => exit.errflag = -140 ∧ exit.rest.flatten = bytes.drop 16
  | .damaged count => exit.errflag = -3 ∧ exit.rest.flatten = bytes.drop count
  | .unknown count => exit.errflag = -4 ∧ exit.rest.flatten = bytes.drop count
  | .envelope count =>
    (exit.errflag = 0 ∧ exit.msgType = msgAuthSsl ∧ exit.pktLen + 24 = count ∨
        exit.errflag = -5) ∧
      exit.rest.flatten = bytes.drop count
  | .message payload =>
    exit.errflag = 0 ∧ exit.rest.flatten = bytes.drop (payload.length + 24) ∧
      exit.pktLen = payload.length ∧ exit.msgType = gtCmdNoAuth ∧
      load exit.recv headSize payload.length = payload

/-- The envelope at a place is opened: with the type and the length of its header, and with the
bytes behind it. -/
def Opened (conf : Conf) (bytes : Bytes) (exit : Exit) : Prop :=
  ∀ count, verdict conf bytes = .envelope (count + 24) → ∃ memory,
    let result := conf.envUnpack (bytes.getD 8 0) ((bytes.drop 16).take count) conf.bufLen memory
    (result.1 = 0 → exit.errflag = 0 ∧ exit.recv = result.2) ∧
      (result.1 ≠ 0 → exit.errflag = -5)

/-- The header at a place is accepted, and is for a packet that gets a block. -/
structure Long (conf : Conf) (bytes : Bytes) : Prop where
  matched : mismatch syncHead bytes = none
  header : 16 ≤ bytes.length
  kept : ¬Dropped conf bytes
  long : (tmpbufLen : Int) < lengthAt bytes + 528

/-- The receiver is at a place of the stream. -/
def At (state : Buffers × Socket) (bytes : Bytes) : Prop :=
  state.2.flatten = bytes ∧ state.1.Safe

/-- An outcome is what the search comes to at a place. `before` is the size of the block that is in
use there: it stays unless the packet is long, and without one an envelope is opened with its own
header. -/
def Meets (conf : Conf) (before : Option Nat) (bytes : Bytes) (outcome : Outcome) : Prop :=
  (∃ state next, outcome = some (.inl state) ∧ search conf bytes = some next ∧ At state next ∧
      (state.1.blockSize = before ∨ Long conf bytes)) ∨
    ∃ exit, outcome = some (.inr exit) ∧ search conf bytes = none ∧ Gives conf bytes exit ∧
      (conf.given = true ∨ before = none → Opened conf bytes exit)

section Meets

variable {conf : Conf} {before : Option Nat} {bytes : Bytes} {buffers : Buffers} {socket : Socket}
  {count : Nat}

theorem meets_getheader (skips : verdict conf bytes = .skip count)
    (left : socket.flatten = bytes.drop count) (safe : buffers.Safe)
    (block : buffers.blockSize = before ∨ Long conf bytes) :
    Meets conf before bytes (getheader buffers socket) :=
  .inl ⟨_, bytes.drop count, rfl, search_of_skip skips, ⟨left, safe⟩, block⟩

theorem meets_opened {exit : Exit} (given : Gives conf bytes exit)
    (opened : conf.given = true ∨ before = none → Opened conf bytes exit) :
    Meets conf before bytes (some (.inr exit)) := by
  refine .inr ⟨exit, rfl, ?_, given, opened⟩
  unfold Gives at given
  unfold search
  split
  · next skips =>
    rw [skips] at given
    cases given
  · rfl

theorem meets_exit {exit : Exit} (given : Gives conf bytes exit)
    (other : ∀ count, verdict conf bytes ≠ .envelope count) :
    Meets conf before bytes (some (.inr exit)) :=
  meets_opened given fun _ _ sealed_ => absurd sealed_ (other _)

theorem meets_ended {exit : Exit} (ends : verdict conf bytes = .ended)
    (errflag : exit.errflag = -140) (rest : exit.rest = []) :
    Meets conf before bytes (some (.inr exit)) := by
  refine meets_exit ?_ fun _ sealed_ => by cases ends.symm.trans sealed_
  unfold Gives
  rw [ends]
  exact ⟨errflag, by rw [rest, List.flatten_nil]⟩

/-- A message ends the call, if it is in the buffer of the caller. -/
theorem meets_message {exit : Exit} {payload : Bytes} (ends : verdict conf bytes = .message payload)
    (done : exit.errflag = 0) (left : exit.rest.flatten = bytes.drop (payload.length + 24))
    (length : exit.pktLen = payload.length) (plain : exit.msgType = gtCmdNoAuth)
    (loaded : load exit.recv headSize payload.length = payload) :
    Meets conf before bytes (some (.inr exit)) := by
  refine meets_exit ?_ fun _ sealed_ => by cases ends.symm.trans sealed_
  unfold Gives
  rw [ends]
  exact ⟨done, left, length, plain, loaded⟩

/-- A read is as it should be if what follows it is, and if the stream may end in it. -/
theorem readInto_meets {pointer : Pointer} {place : Nat} {next : Buffers → Socket → Outcome}
    (fits : place + count ≤ buffers.size conf pointer)
    (ended : socket.flatten.length < count → verdict conf bytes = .ended)
    (goes : count ≤ socket.flatten.length → ∀ rest, rest.flatten = socket.flatten.drop count →
      Meets conf before bytes
        (next (buffers.stored conf pointer place (socket.flatten.take count)) rest)) :
    Meets conf before bytes (readInto conf pointer place count buffers socket next) := by
  rcases @readInto_cases conf buffers socket pointer place count next fits with
    ⟨enough, rest, left, read⟩ | ⟨few, exit, read, errflag, rest⟩
  · rw [read]
    exact goes enough rest left
  · rw [read]
    exact meets_ended (ended few) errflag rest

/-- An envelope ends the call. -/
theorem openEnvelope_cases (conf : Conf) (count : Nat) (buffers : Buffers) (socket : Socket) :
    ∃ exit, openEnvelope conf count buffers socket = some (.inr exit) ∧
      ((unpacked conf buffers).1 = 0 ∧ exit.errflag = 0 ∧ exit.recv = (unpacked conf buffers).2 ∧
          exit.msgType = buffers.memory conf .head 7 ∧ exit.pktLen = count ∨
        (unpacked conf buffers).1 ≠ 0 ∧ exit.errflag = -5) ∧
      exit.rest = socket := by
  unfold openEnvelope
  simp only
  split
  · next failed => exact ⟨_, rfl, .inr ⟨failed, rfl⟩, rfl⟩
  · next done => exact ⟨_, rfl, .inl ⟨not_not.mp done, rfl, rfl, rfl, rfl⟩, rfl⟩

/-- The header that an envelope is opened with, from its length on: that of the local buffer, or
the one that is copied to the caller. -/
def HeadCopied (conf : Conf) (bytes : Bytes) (buffers : Buffers) : Prop :=
  ∀ place, 4 ≤ place → place < 16 →
    buffers.memory conf (if conf.given then .head else .s) place = bytes.getD place 0

/-- With a header of its own an envelope is opened as it was sent. -/
theorem unpacked_eq (copied : HeadCopied conf bytes buffers)
    (count_ : lengthAt bytes = count)
    (body : load (buffers.memory conf .s) headSize count = (bytes.drop 16).take count) :
    ∃ memory, unpacked conf buffers =
      conf.envUnpack (bytes.getD 8 0) ((bytes.drop 16).take count) conf.bufLen memory := by
  have head (place : Nat) (front : 4 ≤ place) (inside : place < 16) :
      (if conf.given then buffers.tbuf
        else store buffers.recv 0 (load (buffers.memory conf .s) 0 headSize)) place =
        bytes.getD place 0 := by
    have there := copied place front inside
    by_cases given : conf.given = true
    · rw [if_pos given] at there ⊢
      simpa only [Buffers.memory, Buffers.headBuffer, given, if_true] using there
    · rw [if_neg given] at there ⊢
      have stored := @store_load 0 headSize place buffers.recv (buffers.memory conf .s) 0
        (by rw [headSize]; omega)
      rw [Nat.zero_add] at stored
      rw [stored, there]
  have length : (((bytes.getD 4 0).toNat + 2 ^ 8 * (bytes.getD 5 0).toNat : Nat) : Int) + 2 + 4 -
      4 - headSize = count := by
    rw [← count_, lengthAt, headSize]
    omega
  refine ⟨store buffers.recv 0 (load (buffers.memory conf .s) 0 headSize), ?_⟩
  unfold unpacked
  simp only [head 4 (by omega) (by omega), head 5 (by omega) (by omega),
    head 8 (by omega) (by omega), length, Int.toNat_natCast, body]

/-- The packet as it stands in the buffers. -/
structure Held (conf : Conf) (bytes : Bytes) (count : Nat) (buffers : Buffers) : Prop where
  body : load (buffers.memory conf .s) headSize count = (bytes.drop 16).take count
  crc : getUnaligned (buffers.memory conf .s) (headSize + count) = wordAt bytes (count + 16)
  tail : getUnaligned (buffers.memory conf .s) (headSize + count + 4) = wordAt bytes (count + 20)
  type : buffers.memory conf .head 7 = bytes.getD 7 0

/-- A packet that has been read is treated as it should be. -/
theorem checkPacket_meets (known : verdict conf bytes = packetVerdict count bytes)
    (count_ : lengthAt bytes = count) (enough : count + 24 ≤ bytes.length)
    (fits : count + 36 ≤ conf.bufLen) (left : socket.flatten = bytes.drop (count + 24))
    (safe : buffers.Safe) (held : Held conf bytes count buffers)
    (block : buffers.blockSize = before ∨ Long conf bytes)
    (copied : conf.given = true ∨ before = none → HeadCopied conf bytes buffers) :
    Meets conf before bytes (checkPacket conf count buffers socket) := by
  have length : ((bytes.drop 16).take count).length = count := by
    rw [List.length_take, List.length_drop]
    omega
  have longEnough : ¬bytes.length < count + 24 := Nat.not_lt.mpr enough
  unfold checkPacket
  simp only [held.body, held.crc, held.tail, held.type]
  unfold packetVerdict at known
  rw [if_neg longEnough] at known
  by_cases tail : wordAt bytes (count + 20) = pktTail
  · rw [if_neg (not_not.mpr tail)] at known ⊢
    by_cases crc : (tabCrc32 ((bytes.drop 16).take count)).toNat = wordAt bytes (count + 16)
    · rw [if_neg (not_not.mpr crc)] at known ⊢
      by_cases plain : bytes.getD 7 0 = gtCmdNoAuth
      · rw [if_pos plain] at known ⊢
        have behind : socket.flatten = bytes.drop (((bytes.drop 16).take count).length + 24) := by
          rw [length, left]
        -- The message is in the buffer of the caller already, or is copied there.
        split
        · next inPlace =>
          refine meets_message known rfl behind (by rw [length]) plain ?_
          have same : buffers.memory conf .s = buffers.recv := by
            simp only [Buffers.memory, inPlace.2, Buffers.headBuffer, inPlace.1, if_false,
              Bool.false_eq_true]
          rw [← same, length, held.body]
        · rw [if_pos (by rw [headSize]; omega)]
          refine meets_message known rfl behind (by rw [length]) plain ?_
          rw [length, ← held.body]
          refine load_congr fun offset inside => ?_
          have copied := @store_load 0 (headSize + count + 4 + 4) (headSize + offset) buffers.recv
            (buffers.memory conf .s) 0 (by omega)
          rwa [Nat.zero_add] at copied
      · rw [if_neg plain] at known ⊢
        by_cases sealed_ : bytes.getD 7 0 = msgAuthSsl
        · rw [if_pos sealed_] at known ⊢
          obtain ⟨exit, opened, outcome, rest⟩ := openEnvelope_cases conf count buffers socket
          rw [opened]
          refine meets_opened ?_ fun own other sealedOther => ?_
          · unfold Gives
            rw [known]
            refine ⟨outcome.imp (fun done => ?_) And.right, by rw [rest, left]⟩
            exact ⟨done.2.1, by rw [done.2.2.2.1, held.type, sealed_], by rw [done.2.2.2.2]⟩
          · have same : other = count := by
              rw [known] at sealedOther
              injection sealedOther with lengths
              omega
            obtain ⟨memory, result⟩ := unpacked_eq (copied own) count_ held.body
            rw [same]
            refine ⟨memory, ?_⟩
            dsimp only
            rw [← result]
            rcases outcome with ⟨zero, errflag, recv, _⟩ | ⟨failed, errflag⟩
            · exact ⟨fun _ => ⟨errflag, recv⟩, fun failed => absurd zero failed⟩
            · exact ⟨fun zero => absurd zero failed, fun _ => errflag⟩
        · rw [if_neg sealed_] at known ⊢
          refine meets_exit ?_ fun _ other => by cases known.symm.trans other
          unfold Gives
          rw [known]
          exact ⟨rfl, left⟩
    · rw [if_pos crc] at known ⊢
      refine meets_exit ?_ fun _ other => by cases known.symm.trans other
      unfold Gives
      rw [known]
      exact ⟨rfl, left⟩
  · rw [if_pos tail] at known ⊢
    exact meets_getheader known left safe block

/-- A write behind the header leaves the copy of the header. -/
theorem HeadCopied.stored {place : Nat} {string : Bytes} (copied : HeadCopied conf bytes buffers)
    (behind : 16 ≤ place) : HeadCopied conf bytes (buffers.stored conf .s place string) := by
  intro address front inside
  rw [← copied address front inside]
  split
  · exact Buffers.head_stored (by omega)
  · rw [Buffers.memory_stored]
    exact store_outside (.inl (by omega))

/-- The message, the checksum and the end mark in the order in which they are read. -/
theorem held_stored (enough : count + 24 ≤ bytes.length)
    (type : buffers.memory conf .head 7 = bytes.getD 7 0) :
    Held conf bytes count
      (((buffers.stored conf .s headSize ((bytes.drop 16).take count)).stored conf .s
        (headSize + count) ((bytes.drop (count + 16)).take 4)).stored conf .s
        (headSize + count + 4) ((bytes.drop (count + 20)).take 4)) := by
  have bodyLength : ((bytes.drop 16).take count).length = count := by
    rw [List.length_take, List.length_drop]
    omega
  have crcLength : ((bytes.drop (count + 16)).take 4).length = 4 := by
    rw [List.length_take, List.length_drop]
    omega
  have tailLength : ((bytes.drop (count + 20)).take 4).length = 4 := by
    rw [List.length_take, List.length_drop]
    omega
  have loaded : ∀ (memory : Memory) (place total : Nat) (string : Bytes), string.length = total →
      load (store memory place string) place total = string := by
    intro memory place total string same
    rw [← same, load_store]
  exact
    { body := by
        rw [Buffers.memory_stored, load_store_apart _ (.inr (by omega)), Buffers.memory_stored,
          load_store_apart _ (.inr (by omega)), Buffers.memory_stored, loaded _ _ _ _ bodyLength]
      crc := by
        rw [getUnaligned, Buffers.memory_stored, load_store_apart _ (.inr (by omega)),
          Buffers.memory_stored, loaded _ _ _ _ crcLength, wordAt]
      tail := by
        rw [getUnaligned, Buffers.memory_stored, loaded _ _ _ _ tailLength, wordAt]
      type := by
        rw [Buffers.head_stored (by rw [headSize]; omega),
          Buffers.head_stored (by rw [headSize]; omega), Buffers.head_stored (by decide), type] }

/-- The rest of a packet is read and treated as it should be. -/
theorem readPacket_meets
    (known : verdict conf bytes =
      if lengthAt bytes ≤ 0 then .short else packetVerdict (lengthAt bytes).toNat bytes)
    (header : 16 ≤ bytes.length) (left : socket.flatten = bytes.drop 16)
    (fits : lengthAt bytes + 36 ≤ conf.bufLen)
    (roomy : headSize + (lengthAt bytes).toNat + 8 ≤ buffers.size conf .s)
    (type : buffers.memory conf .head 7 = bytes.getD 7 0) (safe : buffers.Safe)
    (block : buffers.blockSize = before ∨ Long conf bytes)
    (copied : conf.given = true ∨ before = none → HeadCopied conf bytes buffers) :
    Meets conf before bytes (readPacket conf (lengthAt bytes) buffers socket) := by
  unfold readPacket
  by_cases short : lengthAt bytes ≤ 0
  · rw [if_pos short] at known ⊢
    refine meets_exit ?_ fun _ other => by cases known.symm.trans other
    unfold Gives
    rw [known]
    exact ⟨rfl, left⟩
  · rw [if_neg short] at known ⊢
    generalize count_ : (lengthAt bytes).toNat = count at known roomy ⊢
    have leftLength : socket.flatten.length = bytes.length - 16 := by
      rw [left, List.length_drop]
    have ended : bytes.length < count + 24 → verdict conf bytes = .ended := fun few => by
      rw [known, packetVerdict, if_pos few]
    have behind : (bytes.drop 16).drop count = bytes.drop (count + 16) := by
      rw [List.drop_drop, Nat.add_comm]
    -- The stream may end in each of the three reads.
    refine readInto_meets (by omega) (fun few => ended (by omega)) fun enough first afterFirst => ?_
    have firstLength : first.flatten.length = bytes.length - 16 - count := by
      rw [afterFirst, List.length_drop, leftLength]
    refine readInto_meets ?_ (fun few => ended (by omega)) fun enough second afterSecond => ?_
    · rw [Buffers.stored_size]
      omega
    have secondLength : second.flatten.length = bytes.length - 16 - count - 4 := by
      rw [afterSecond, List.length_drop, firstLength]
    refine readInto_meets ?_ (fun few => ended (by omega)) fun enough third afterThird => ?_
    · rw [Buffers.stored_size, Buffers.stored_size]
      omega
    rw [left, behind] at afterFirst
    rw [afterFirst, List.drop_drop] at afterSecond
    rw [afterSecond, List.drop_drop] at afterThird
    rw [left, afterFirst, afterSecond]
    refine checkPacket_meets known (by omega) (by omega) (by omega) ?_
      ((safe.stored _).stored _ |>.stored _) (held_stored (by omega) type) ?_ fun own =>
        (((copied own).stored (by decide)).stored (by rw [headSize]; omega)).stored
          (by rw [headSize]; omega)
    · rw [afterThird]
    · rw [Buffers.stored_blockSize, Buffers.stored_blockSize, Buffers.stored_blockSize]
      exact block

/-- The header as it stands in its buffer. -/
def HeadHeld (conf : Conf) (bytes : Bytes) (buffers : Buffers) : Prop :=
  ∀ place, 4 ≤ place → place < 16 → buffers.memory conf .head place = bytes.getD place 0

/-- Without a block an envelope is opened with this header. -/
theorem HeadHeld.copied (held : HeadHeld conf bytes buffers)
    (own : conf.given = true ∨ buffers.blockSize = none) : HeadCopied conf bytes buffers := by
  intro place front inside
  have there := held place front inside
  split
  · exact there
  · next given =>
    have none := Option.map_eq_none_iff.mp (own.resolve_left given)
    rw [← there]
    simp only [Buffers.memory, none]

/-- The first block gets this header. -/
theorem HeadHeld.copied_block {fresh : Memory} {size : Nat} (held : HeadHeld conf bytes buffers)
    (own : conf.given = true ∨ buffers.blockSize = none) :
    HeadCopied conf bytes { buffers with
      block := some (store fresh 0 (load (buffers.memory conf .s) 0 headSize), size) } := by
  intro place front inside
  have there := held place front inside
  split
  · exact there
  · next given =>
    have none := Option.map_eq_none_iff.mp (own.resolve_left given)
    have stored := @store_load 0 headSize place fresh (buffers.memory conf .s) 0
      (by rw [headSize]; omega)
    rw [Nat.zero_add] at stored
    rw [← there]
    show store fresh 0 (load (buffers.memory conf .s) 0 headSize) place = _
    rw [stored]
    simp only [Buffers.memory, none]

theorem getUnaligned_head {place : Nat} (header : 16 ≤ bytes.length)
    (held : HeadHeld conf bytes buffers) (front : 4 ≤ place) (inside : place + 4 ≤ 16) :
    getUnaligned (buffers.memory conf .head) place = wordAt bytes place := by
  have same : load (buffers.memory conf .head) place 4 = (bytes.drop place).take 4 := by
    refine List.ext_getElem ?_ fun offset within _ => ?_
    · rw [load_length, List.length_take, List.length_drop]
      omega
    · rw [load_length] at within
      rw [load_getElem, List.getElem_take, List.getElem_drop,
        held (place + offset) (by omega) (by omega), List.getD_eq_getElem _ _ (by omega)]
  rw [getUnaligned, same, wordAt]

/-- The buffer that `s` points to has room for a packet that needs no block. -/
theorem size_of_small (safe : buffers.Safe) (fits : count + 36 ≤ conf.bufLen)
    (small : count + 528 ≤ tmpbufLen) : headSize + count + 8 ≤ buffers.size conf .s := by
  rw [Buffers.size_eq]
  simp only [headSize]
  cases held : buffers.blockSize with
  | none =>
    rw [Option.getD_none]
    split
    · omega
    · omega
  | some size =>
    have long := safe size held
    rw [Option.getD_some]
    omega

/-- A packet that fits and has a right header is kept, if there is memory for a long one. -/
theorem not_dropped (fits : lengthAt bytes + 36 ≤ conf.bufLen)
    (whole : ¬wordAt bytes 4 ^^^ wordAt bytes 8 ≠ wordAt bytes 12)
    (memory : (tmpbufLen : Int) < lengthAt bytes + 528 → conf.memalign (bytes.length - 16) ≠ none) :
    ¬Dropped conf bytes := by
  rintro (tooLong | broken | ⟨long, nowhere⟩)
  · exact Int.not_lt.mpr fits tooLong
  · exact whole broken
  · exact memory long nowhere

/-- A header that has been read is treated as it should be. -/
theorem checkHead_meets (matched : mismatch syncHead bytes = none) (header : 16 ≤ bytes.length)
    (left : socket.flatten = bytes.drop 16) (held : HeadHeld conf bytes buffers)
    (safe : buffers.Safe) (same : buffers.blockSize = before) :
    Meets conf before bytes (checkHead conf buffers socket) := by
  have known : verdict conf bytes =
      if Dropped conf bytes then .skip 16
      else if lengthAt bytes ≤ 0 then .short
      else packetVerdict (lengthAt bytes).toNat bytes := by
    rw [verdict, matched]
    simp only
    rw [if_neg (Nat.not_lt.mpr header)]
  have dropped : Dropped conf bytes → Meets conf before bytes (getheader buffers socket) :=
    fun drops => meets_getheader (by rw [known, if_pos drops]) left safe (.inl same)
  have leftLength : socket.flatten.length = bytes.length - 16 := by rw [left, List.length_drop]
  have length : (((buffers.memory conf .head 4).toNat +
      2 ^ 8 * (buffers.memory conf .head 5).toNat : Nat) : Int) - headSize + 4 + 2 - 4 =
      lengthAt bytes := by
    rw [held 4 (by omega) (by omega), held 5 (by omega) (by omega), lengthAt, headSize]
    omega
  have type := held 7 (by omega) (by omega)
  have lower : -14 ≤ lengthAt bytes := by
    unfold lengthAt
    omega
  unfold checkHead
  simp only [length, leftLength, getUnaligned_head header held (Nat.le_refl 4) (by omega),
    getUnaligned_head header held (show 4 ≤ 8 by omega) (by omega),
    getUnaligned_head header held (show 4 ≤ 12 by omega) (by omega)]
  split
  · next long => exact dropped (.inl (by rw [headSize] at long; omega))
  · next fits =>
    split
    · next broken => exact dropped (.inr (.inl broken))
    · next whole =>
      have room : lengthAt bytes + 36 ≤ conf.bufLen := by
        rw [headSize] at fits
        omega
      split
      · next long =>
        have long' : (tmpbufLen : Int) < lengthAt bytes + 528 := by
          rw [headSize, ebufAddon] at long
          omega
        cases given : conf.memalign (bytes.length - 16) with
        | none => exact dropped (.inr (.inr ⟨long', given⟩))
        | some fresh =>
          have found : conf.memalign (bytes.length - 16) ≠ none := by
            rw [given]
            exact Option.some_ne_none fresh
          rw [if_neg (not_dropped room whole fun _ => found)] at known
          refine readPacket_meets known header left room ?_ type ?_
            (.inr ⟨matched, header, not_dropped room whole fun _ => found, long'⟩) ?_
          · simp only [Buffers.size, headSize, ebufAddon]
            omega
          · intro size member
            have same : (lengthAt bytes + headSize + ebufAddon).toNat = size :=
              Option.some.inj member
            rw [← same, headSize, ebufAddon]
            omega
          · exact fun own => held.copied_block (own.imp_right fun none => same.trans none)
      · next small =>
        have small' : lengthAt bytes + 528 ≤ tmpbufLen := by
          rw [headSize, ebufAddon] at small
          omega
        rw [if_neg (not_dropped room whole fun long => absurd long (Int.not_lt.mpr small'))]
          at known
        have bound := conf.room
        have local_ : tmpbufLen = 1024 := rfl
        exact readPacket_meets known header left room
          (size_of_small safe (by omega) (by omega)) type safe (.inl same)
          fun own => held.copied (own.imp_right fun none => same.trans none)

theorem mismatch_append (done marks rest : Bytes) :
    mismatch (done ++ marks) (done ++ rest) = (mismatch marks rest).map (· + done.length) := by
  induction done with
  | nil => exact Option.map_id'.symm
  | cons mark done inductionHypothesis =>
    rw [List.cons_append, List.cons_append, mismatch, if_pos rfl, inductionHypothesis,
      Option.map_map]
    rfl

theorem size_head (conf : Conf) (buffers : Buffers) : 16 ≤ buffers.size conf .head := by
  have room := conf.room
  have local_ : 16 ≤ tmpbufLen := by decide
  rw [Buffers.size_eq]
  simp only
  split
  · exact local_
  · omega

/-- The mark is read as it should be if what follows it is. The marks that have been found so far
are still the first bytes of the stream from the place on where the search is. -/
theorem readSync_meets {next : Buffers → Socket → Outcome} {done marks : Bytes}
    (sync : syncHead = done ++ marks) (found : bytes = done ++ socket.flatten)
    (safe : buffers.Safe) (same : buffers.blockSize = before)
    (goes : mismatch syncHead bytes = none → ∀ after rest, bytes = syncHead ++ rest.flatten →
      after.Safe → after.blockSize = before → Meets conf before bytes (next after rest)) :
    Meets conf before bytes (readSync conf next marks done.length buffers socket) := by
  have known : mismatch syncHead bytes =
      (mismatch marks socket.flatten).map (· + done.length) := by
    rw [sync, found, mismatch_append]
  have few : done.length + marks.length = 4 := by
    rw [← List.length_append, ← sync]
    rfl
  induction marks generalizing done buffers socket with
  | nil =>
    rw [readSync]
    rw [List.append_nil] at sync
    refine goes ?_ buffers socket (by rw [found, sync]) safe same
    rw [known]
    rfl
  | cons mark marks inductionHypothesis =>
    rw [List.length_cons] at few
    have room := size_head conf buffers
    rw [readSync]
    refine readInto_meets (by omega) (fun empty => ?_) fun enough rest left => ?_
    · have nothing : socket.flatten = [] := List.length_eq_zero_iff.mp (by omega)
      rw [verdict, known, nothing]
      simp only [mismatch, Option.map_none]
      rw [if_pos]
      rw [found, nothing, List.append_nil]
      omega
    · obtain ⟨byte, behind, split⟩ := List.exists_cons_of_length_pos enough
      have read : (buffers.stored conf .head done.length (socket.flatten.take 1)).memory conf .head
          done.length = byte := by
        rw [Buffers.memory_stored, split]
        have inside := @store_inside (buffers.memory conf .head) done.length [byte] 0 Nat.one_pos
        rwa [Nat.add_zero] at inside
      rw [split, List.drop_succ_cons, List.drop_zero] at left
      simp only [read]
      split
      · next other =>
        have skips : mismatch syncHead bytes = some (1 + done.length) := by
          rw [known, split, mismatch, if_neg other]
          rfl
        refine meets_getheader (by rw [verdict, skips]) ?_ (safe.stored _)
          (.inl ((Buffers.stored_blockSize _).trans same))
        rw [left, found, split, Nat.add_comm, ← List.drop_drop, List.drop_left,
          List.drop_succ_cons, List.drop_zero]
      · next fits =>
        have fits := not_not.mp fits
        have longer : done.length + 1 = (done ++ [mark]).length := by
          rw [List.length_append, List.length_singleton]
        rw [longer]
        refine inductionHypothesis ?_ ?_ (safe.stored _)
          ((Buffers.stored_blockSize _).trans same) ?_ ?_
        · rw [sync, List.append_assoc, List.singleton_append]
        · rw [found, split, left, fits, List.append_assoc, List.singleton_append]
        · rw [known, split, mismatch, if_pos fits, Option.map_map, left, ← longer]
          congr 1
          funext count
          rw [Function.comp_apply]
          omega
        · omega

/-- From `getheader` on the function does what the search does. -/
theorem fromGetheader_meets (conf : Conf) {buffers : Buffers} {socket : Socket} {bytes : Bytes}
    (there : socket.flatten = bytes) (safe : buffers.Safe) :
    Meets conf buffers.blockSize bytes (fromGetheader conf (buffers, socket)) := by
  refine @readSync_meets conf _ bytes buffers socket _ [] syncHead rfl there.symm safe rfl
    fun matched after rest split safe same => ?_
  have restLength : bytes.length = 4 + rest.flatten.length := by
    rw [split, List.length_append]
    rfl
  have room := size_head conf after
  refine readInto_meets (by rw [headSize]; omega) (fun few => ?_) fun enough behind left => ?_
  · rw [verdict, matched]
    rw [headSize] at few
    exact if_pos (by omega)
  · rw [headSize] at enough left
    have drop : bytes.drop 4 = rest.flatten := by
      rw [split]
      exact List.drop_left' rfl
    refine checkHead_meets matched (by omega) ?_ ?_ (safe.stored _)
      ((Buffers.stored_blockSize _).trans same)
    · rw [left, ← drop, List.drop_drop]
    · intro place front inside
      obtain ⟨offset, rfl⟩ := Nat.exists_eq_add_of_le front
      have length : (rest.flatten.take (headSize - 4)).length = 12 := by
        rw [List.length_take, headSize]
        omega
      rw [Buffers.memory_stored, store_inside (by omega), List.getD_eq_getElem _ _ (by omega),
        List.getD_eq_getElem _ _ (by omega), List.getElem_take]
      simp only [← drop, List.getElem_drop]

/-- The search has passed a packet that gets a block on its way to a place. -/
def Burdened (conf : Conf) (stream place : Bytes) : Prop :=
  ∃ long next, Comes (search conf) stream long ∧ Long conf long ∧ search conf long = some next ∧
    Comes (search conf) next place

/-- The turns of the function follow the search, and use no block until a long packet is passed. -/
theorem fromGetheader_follows (conf : Conf) (stream : Bytes) :
    Follows (fromGetheader conf) (search conf)
      (fun state place => At state place ∧ Comes (search conf) stream place ∧
        (state.1.blockSize = none ∨ Burdened conf stream place))
      (fun place exit => Gives conf place exit ∧
        (conf.given = true ∨ ¬Burdened conf stream place → Opened conf place exit)) := by
  rintro ⟨buffers, socket⟩ bytes ⟨⟨there, safe⟩, way, block⟩
  rcases fromGetheader_meets conf there safe with
    ⟨state, next, outcome, moves, at_, kept⟩ | ⟨exit, outcome, stops, gives, opened⟩
  · refine .inl ⟨state, next, outcome, moves, at_, way.snoc moves, ?_⟩
    rcases kept with same | long
    · exact block.imp same.trans fun ⟨earlier, behind, first, long, taken, rest⟩ =>
        ⟨earlier, behind, first, long, taken, rest.snoc moves⟩
    · exact .inr ⟨bytes, next, way, long, moves, .here⟩
  · refine .inr ⟨exit, outcome, stops, gives, fun own => opened (own.imp_right fun light => ?_)⟩
    exact block.resolve_right light

end Meets

/-- A call ends, with no write outside a buffer, as it should at the place where the search for a
packet stops. An envelope there is opened as it was sent if the pointers for the types are given,
or if no packet that gets a block has been passed. -/
theorem receive_ends_opened (conf : Conf) (recv tbuf : Memory) (socket : Socket) :
    ∃ exit last, gtCmdPktRecvEnv conf recv tbuf socket = some exit ∧
      Comes (search conf) socket.flatten last ∧ search conf last = none ∧
      Gives conf last exit ∧
      (conf.given = true ∨ ¬Burdened conf socket.flatten last → Opened conf last exit) := by
  have start : At (⟨recv, tbuf, none⟩, socket) socket.flatten :=
    ⟨rfl, fun _ member => by cases member⟩
  exact scan_ends (fromGetheader_follows conf socket.flatten) search_smaller (Nat.lt_succ_self _)
    ⟨start, .here, .inl rfl⟩

theorem receive_ends (conf : Conf) (recv tbuf : Memory) (socket : Socket) :
    ∃ exit last, gtCmdPktRecvEnv conf recv tbuf socket = some exit ∧
      Comes (search conf) socket.flatten last ∧ search conf last = none ∧
      Gives conf last exit := by
  obtain ⟨exit, last, ended, way, stops, gives, _⟩ := receive_ends_opened conf recv tbuf socket
  exact ⟨exit, last, ended, way, stops, gives⟩

end ExmOnvif.GtComApi
