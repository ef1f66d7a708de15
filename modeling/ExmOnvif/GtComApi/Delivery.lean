/-
This file proves what arrives of the packets that were sent.

Packets that are sent one after another arrive one after another, whatever pieces the
stream comes in. What is accepted from any stream is a well-formed frame. Behind bytes
that belong to no packet the search finds the next packet unless these bytes end with
the beginning of a mark, for the byte that does not fit a mark is passed and not looked
at again. A packet that is too long is not passed as a whole: the search goes on behind
its header.
-/

import Mathlib.Data.List.Forall2
import ExmOnvif.GtComApi.Envelope
import ExmOnvif.GtComApi.Receive

namespace ExmOnvif.GtComApi

open Library

/-! ### Sending and receiving -/

/-- A message in the buffer of its sender, and the types it is sent with. -/
structure Sending where
  send : Memory
  message : Bytes
  held : load send headSize message.length = message
  msgType : UInt8
  encryptType : UInt8

/-- What is sent. -/
def Sending.sent (envPack : UInt8 → Bytes → Nat → Except Int Bytes) (sending : Sending) :
    Except SendErr Bytes :=
  gtCmdPktSend envPack sending.send sending.message.length sending.msgType sending.encryptType

/-- Messages sent one after another. -/
def sendAll (envPack : UInt8 → Bytes → Nat → Except Int Bytes) :
    List Sending → Except SendErr Bytes
  | [] => .ok []
  | sending :: sendings =>
    (sending.sent envPack).bind fun packet =>
      (sendAll envPack sendings).map fun packets => packet ++ packets

/-- A number of calls one after another, each with memory of its own. -/
def receiveEach (conf : Conf) (memories : Nat → Memory × Memory) :
    Nat → Socket → Option (List Exit × Socket)
  | 0, socket => some ([], socket)
  | calls + 1, socket =>
    match gtCmdPktRecvEnv conf (memories calls).1 (memories calls).2 socket with
    | none => none
    | some exit =>
      (receiveEach conf memories calls exit.rest).map fun (exits, rest) => (exit :: exits, rest)

/-- A call has returned this message, which was not encrypted. -/
def Received (message : Bytes) (exit : Exit) : Prop :=
  exit.errflag = 0 ∧ exit.msgType = gtCmdNoAuth ∧ exit.pktLen = (padded message).length ∧
    load exit.recv headSize (padded message).length = padded message

/-- Every call on the stream ends like this, whatever is in its memory and whatever pieces the
stream comes in. -/
def Returns (conf : Conf) (stream : Bytes) (good : Exit → Prop) : Prop :=
  ∀ recv tbuf socket, socket.flatten = stream →
    ∃ exit, gtCmdPktRecvEnv conf recv tbuf socket = some exit ∧ good exit

section Calls

variable {conf : Conf} {stream last message payload : Bytes} {good : Exit → Prop}

/-- The packet of a message that is not encrypted. -/
def Sending.packet (sending : Sending) : Bytes :=
  frame (padded sending.message) gtCmdNoAuth sending.encryptType

theorem sent_packet (envPack : UInt8 → Bytes → Nat → Except Int Bytes) {sending : Sending}
    (plain : sending.msgType = gtCmdNoAuth) : sending.sent envPack = .ok sending.packet := by
  rw [Sending.sent, plain]
  exact gtCmdPktSend_noAuth sending.encryptType sending.held

theorem packet_length (sending : Sending) :
    sending.packet.length = (padded sending.message).length + 24 :=
  frame_length _ _ _

/-- What a call does is decided at the place where the search stops. -/
theorem returns_of_opened (way : Comes (search conf) stream last) (stops : search conf last = none)
    (enough : ∀ exit, Gives conf last exit →
      (conf.given = true ∨ ¬Burdened conf stream last → Opened conf last exit) → good exit) :
    Returns conf stream good := by
  intro recv tbuf socket flat
  obtain ⟨exit, other, ended, otherWay, otherStops, gives, opened⟩ :=
    receive_ends_opened conf recv tbuf socket
  rw [flat] at otherWay opened
  rw [otherWay.unique otherStops stops way] at gives opened
  exact ⟨exit, ended, enough exit gives opened⟩

theorem returns_of_stops (way : Comes (search conf) stream last) (stops : search conf last = none)
    (enough : ∀ exit, Gives conf last exit → good exit) : Returns conf stream good :=
  returns_of_opened way stops fun exit gives _ => enough exit gives

theorem opened_of_returns (returns : Returns conf stream good) :
    ∃ last exit, Comes (search conf) stream last ∧ search conf last = none ∧
      Gives conf last exit ∧
      (conf.given = true ∨ ¬Burdened conf stream last → Opened conf last exit) ∧ good exit := by
  obtain ⟨exit, called, isGood⟩ := returns (fun _ => 0) (fun _ => 0) [stream] (List.append_nil _)
  obtain ⟨other, last, ended, way, stops, gives, opened⟩ :=
    receive_ends_opened conf (fun _ => 0) (fun _ => 0) [stream]
  rw [called] at ended
  cases ended
  have flat : [stream].flatten = stream := List.append_nil _
  rw [flat] at way opened
  exact ⟨last, exit, way, stops, gives, opened, isGood⟩

theorem stops_of_returns (returns : Returns conf stream good) :
    ∃ last exit, Comes (search conf) stream last ∧ search conf last = none ∧
      Gives conf last exit ∧ good exit := by
  obtain ⟨last, exit, way, stops, gives, _, isGood⟩ := opened_of_returns returns
  exact ⟨last, exit, way, stops, gives, isGood⟩

theorem search_none_of_message (taken : verdict conf last = .message payload) :
    search conf last = none := by
  rw [search, taken]

theorem received_of_message (taken : verdict conf last = .message (padded message)) {exit : Exit}
    (gives : Gives conf last exit) :
    Received message exit ∧ exit.rest.flatten = last.drop ((padded message).length + 24) := by
  unfold Gives at gives
  rw [taken] at gives
  obtain ⟨errflag, rest, pktLen, msgType, loaded⟩ := gives
  exact ⟨⟨errflag, msgType, pktLen, loaded⟩, rest⟩

/-- A call returns 0 for a packet that is no envelope at a place where there is one. -/
theorem taken_of_ok {exit : Exit} (gives : Gives conf last exit) (errflag : exit.errflag = 0)
    (msgType : exit.msgType = gtCmdNoAuth) :
    ∃ payload, verdict conf last = .message payload ∧ exit.pktLen = payload.length ∧
      load exit.recv headSize payload.length = payload := by
  unfold Gives at gives
  split at gives
  · cases gives
  · rw [errflag] at gives
    exact absurd gives.1 (by decide)
  · rw [errflag] at gives
    exact absurd gives.1 (by decide)
  · rw [errflag] at gives
    exact absurd gives.1 (by decide)
  · rw [errflag] at gives
    exact absurd gives.1 (by decide)
  · rcases gives.1 with ⟨_, sealed_, _⟩ | failed
    · rw [msgType] at sealed_
      exact absurd sealed_ (by decide)
    · rw [errflag] at failed
      exact absurd failed (by decide)
  · next payload taken =>
    obtain ⟨_, _, count, _, same⟩ := gives
    exact ⟨payload, taken, count, same⟩

end Calls

/-! ### Packets one after another -/

/-- A message that can be sent and received, not encrypted. -/
structure Sendable (conf : Conf) (sending : Sending) : Prop where
  plain : sending.msgType = gtCmdNoAuth
  nonempty : 1 ≤ sending.message.length
  short : (padded sending.message).length ≤ 65521
  fits : (padded sending.message).length ≤ conf.bufLen - 36

section Packets

variable {conf : Conf} {sending : Sending}

theorem Sendable.verdict (sendable : Sendable conf sending) (plenty : conf.Plenty) (rest : Bytes) :
    verdict conf (sending.packet ++ rest) = .message (padded sending.message) := by
  refine verdict_frame plenty ?_ sendable.short sendable.fits rest
  have nonempty := sendable.nonempty
  rw [padded_length]
  omega

/-- The first packet of a stream is received. -/
theorem receive_packet (sendable : Sendable conf sending) (plenty : conf.Plenty) (rest : Bytes) :
    Returns conf (sending.packet ++ rest) fun exit =>
      Received sending.message exit ∧ exit.rest.flatten = rest := by
  have taken := sendable.verdict plenty rest
  refine returns_of_stops .here (search_none_of_message taken) fun exit gives => ?_
  obtain ⟨received, left⟩ := received_of_message taken gives
  refine ⟨received, ?_⟩
  rw [left, ← packet_length, List.drop_left]

/-- Packets that are sent one after another are received one after another, and nothing is left
of the stream. -/
theorem packets_arrive (conf : Conf) (plenty : conf.Plenty)
    (envPack : UInt8 → Bytes → Nat → Except Int Bytes) (sendings : List Sending)
    (sendable : ∀ sending ∈ sendings, Sendable conf sending) :
    ∃ stream, sendAll envPack sendings = .ok stream ∧
      ∀ (socket : Socket) (memories : Nat → Memory × Memory), socket.flatten = stream →
        ∃ exits rest, receiveEach conf memories sendings.length socket = some (exits, rest) ∧
          List.Forall₂ (fun sending exit => Received sending.message exit) sendings exits ∧
          rest.flatten = [] := by
  induction sendings with
  | nil => exact ⟨[], rfl, fun socket memories flat => ⟨[], socket, rfl, .nil, flat⟩⟩
  | cons sending sendings inductionHypothesis =>
    obtain ⟨stream, sent, arrive⟩ := inductionHypothesis fun other member =>
      sendable other (List.mem_cons_of_mem _ member)
    refine ⟨sending.packet ++ stream, ?_, fun socket memories flat => ?_⟩
    · rw [sendAll, sent_packet envPack (sendable sending List.mem_cons_self).plain, sent]
      rfl
    · obtain ⟨exit, called, received, left⟩ := receive_packet
        (sendable sending List.mem_cons_self) plenty stream (memories sendings.length).1
        (memories sendings.length).2 socket flat
      obtain ⟨exits, rest, others, all, nothing⟩ := arrive exit.rest memories left
      refine ⟨exit :: exits, rest, ?_, .cons received all, nothing⟩
      rw [List.length_cons, receiveEach, called]
      simp only [others, Option.map_some]

/-- A buffer of sixty-four bytes, with memory for long packets. -/
def roomy : Conf where
  bufLen := 64
  room := by decide
  given := false
  memalign _ := some fun _ => 0
  envUnpack _ _ _ memory := (0, memory)

theorem roomy_plenty : roomy.Plenty := fun _ => ⟨fun _ => 0, rfl⟩

/-- A message in a buffer that holds nothing else. -/
def sendingOf (message : Bytes) : Sending where
  send := store (fun _ => 0) headSize message
  message := message
  held := load_store _ _ _
  msgType := gtCmdNoAuth
  encryptType := 0

theorem packets_arrive_two :
    ∃ stream, sendAll (fun _ _ _ => .error 1) [sendingOf [1, 2, 3], sendingOf [4]] = .ok stream ∧
      ∀ (socket : Socket) (memories : Nat → Memory × Memory), socket.flatten = stream →
        ∃ exits rest, receiveEach roomy memories 2 socket = some (exits, rest) ∧
          List.Forall₂ (fun sending exit => Received sending.message exit)
            [sendingOf [1, 2, 3], sendingOf [4]] exits ∧ rest.flatten = [] := by
  refine packets_arrive roomy roomy_plenty _ _ fun sending member => ?_
  rcases List.mem_cons.mp member with rfl | member
  · exact ⟨rfl, by decide, by decide, by decide⟩
  · rw [List.mem_singleton.mp member]
    exact ⟨rfl, by decide, by decide, by decide⟩

end Packets

/-! ### What is accepted -/

/-- A call on a stream that returns 0 for a packet that is no envelope has read up to the end of a
well-formed frame and returns its message, and a call that reports the end of the stream has read
all of it. -/
def Sound (conf : Conf) (stream : Bytes) (exit : Exit) : Prop :=
  (exit.errflag = 0 → exit.msgType = gtCmdNoAuth →
    ∃ front frame payload, stream = front ++ (frame ++ exit.rest.flatten) ∧
      WellFormed conf frame payload ∧ load exit.recv headSize payload.length = payload) ∧
  (exit.errflag = -140 → exit.rest.flatten = [])

section Acceptance

variable {conf : Conf} {stream last : Bytes}

/-- A header without a message makes the call report the end of the stream. -/
theorem not_sound_of_short (way : Comes (search conf) stream last)
    (short : verdict conf last = .short) (more : 16 < last.length) :
    ¬Returns conf stream (Sound conf stream) := by
  intro returns
  obtain ⟨other, exit, otherWay, stops, gives, sound⟩ := stops_of_returns returns
  have shortStops : search conf last = none := by rw [search, short]
  rw [otherWay.unique stops shortStops way, Gives, short] at gives
  have nothing := sound.2 gives.1
  rw [gives.2, List.drop_eq_nil_iff] at nothing
  omega

theorem sound_of_gives (way : Comes (search conf) stream last)
    (long : verdict conf last = .short → last.length ≤ 16) {exit : Exit}
    (gives : Gives conf last exit) : Sound conf stream exit := by
  unfold Gives at gives
  split at gives
  · cases gives
  · exact ⟨fun zero => absurd (gives.1.symm.trans zero) (by decide), fun _ => gives.2⟩
  · next short =>
    refine ⟨fun zero => absurd (gives.1.symm.trans zero) (by decide), fun _ => ?_⟩
    rw [gives.2, List.drop_eq_nil_iff]
    exact long short
  · exact ⟨fun zero => absurd (gives.1.symm.trans zero) (by decide),
      fun ended => absurd (gives.1.symm.trans ended) (by decide)⟩
  · exact ⟨fun zero => absurd (gives.1.symm.trans zero) (by decide),
      fun ended => absurd (gives.1.symm.trans ended) (by decide)⟩
  · rcases gives.1 with ⟨zero, sealed_, _⟩ | failed
    · exact ⟨fun _ plain => absurd (plain.symm.trans sealed_) (by decide),
        fun ended => absurd (zero.symm.trans ended) (by decide)⟩
    · exact ⟨fun zero => absurd (failed.symm.trans zero) (by decide),
        fun ended => absurd (failed.symm.trans ended) (by decide)⟩
  · next payload taken =>
    obtain ⟨zero, rest, _, _, loaded⟩ := gives
    refine ⟨fun _ _ => ?_, fun ended => absurd (zero.symm.trans ended) (by decide)⟩
    obtain ⟨front, split⟩ := comes_suffix way
    refine ⟨front, _, payload, ?_, wellFormed_of_message taken, loaded⟩
    rw [rest, List.take_append_drop, split]

/-- Every call ends with all writes inside the buffers. What it accepts is sound, and it reports
the end of the stream only there, exactly if the search comes to no header without a message that
has more bytes behind it. -/
theorem acceptance_sound_iff (conf : Conf) (stream : Bytes) :
    Returns conf stream (Sound conf stream) ↔
      ¬∃ place, Comes (search conf) stream place ∧ verdict conf place = .short ∧
        16 < place.length := by
  constructor
  · rintro returns ⟨place, way, short, more⟩
    exact not_sound_of_short way short more returns
  · intro none recv tbuf socket flat
    obtain ⟨exit, last, ended, way, _, gives⟩ := receive_ends conf recv tbuf socket
    rw [flat] at way
    refine ⟨exit, ended, sound_of_gives way (fun short => ?_) gives⟩
    by_contra more
    exact none ⟨last, way, short, Nat.not_le.mp more⟩

/-- The header of an empty message and one more byte. -/
def emptyMessage : Bytes := header 0 gtCmdNoAuth 0 ++ [0]

/-- The end of the stream is reported in front of its last byte. -/
theorem end_reported_early : ¬Returns roomy emptyMessage (Sound roomy emptyMessage) :=
  not_sound_of_short .here (by decide) (by decide)

end Acceptance

/-! ### Any packet that is sent -/

/-- What is in the packet of a message: the message itself, or an envelope with it. -/
inductive Carried (envPack : UInt8 → Bytes → Nat → Except Int Bytes) (sending : Sending) :
    Bytes → Prop
  | plain : sending.msgType = gtCmdNoAuth → Carried envPack sending (padded sending.message)
  | sealed {room : Nat} {envelope : Bytes} : sending.msgType = msgAuthSsl →
      envPack sending.encryptType (padded sending.message) room = .ok envelope →
      Carried envPack sending envelope

/-- A call has returned a message as it was sent in a packet. -/
structure Arrived (sending : Sending) (packet : Bytes) (exit : Exit) : Prop where
  errflag : exit.errflag = 0
  msgType : exit.msgType = sending.msgType
  pktLen : exit.pktLen + 24 = packet.length
  loaded : load exit.recv headSize (padded sending.message).length = padded sending.message

/-- The buffer of the receiver has room for a packet, and for the message that is in it. -/
structure Fits (conf : Conf) (sending : Sending) (packet : Bytes) : Prop where
  packet : packet.length + 12 ≤ conf.bufLen
  message : headSize + (padded sending.message).length + 8 ≤ conf.bufLen

/-- A packet that is not empty, that has a length which the header can hold, and that can be
opened if it is an envelope. -/
structure Deliverable (sending : Sending) (packet : Bytes) : Prop where
  nonempty : 24 < packet.length
  counted : packet.length ≤ 65545
  opened : sending.msgType = msgAuthSsl → packet.length ≤ 32024

/-- Envelopes are opened up to a length, with the message in the buffer, and refused from there
on. -/
structure Codec (conf : Conf) (envPack : UInt8 → Bytes → Nat → Except Int Bytes) : Prop where
  opens : ∀ etype plain room envelope memory, envPack etype plain room = .ok envelope →
    envelope.length ≤ 32000 → envelope.length + 36 ≤ conf.bufLen →
    headSize + plain.length + 8 ≤ conf.bufLen →
    (conf.envUnpack etype envelope conf.bufLen memory).1 = 0 ∧
      load (conf.envUnpack etype envelope conf.bufLen memory).2 headSize plain.length = plain
  refuses : ∀ etype envelope memory, 32000 < envelope.length →
    (conf.envUnpack etype envelope conf.bufLen memory).1 ≠ 0

section Delivery

variable {conf : Conf} {envPack : UInt8 → Bytes → Nat → Except Int Bytes} {sending : Sending}
  {packet last : Bytes} {exit : Exit}

theorem sent_frame (sent : sending.sent envPack = .ok packet) :
    ∃ payload, packet = frame payload sending.msgType sending.encryptType ∧
      Carried envPack sending payload := by
  by_cases plain : sending.msgType = gtCmdNoAuth
  · rw [sent_packet envPack plain] at sent
    cases sent
    exact ⟨_, by rw [plain]; rfl, .plain plain⟩
  by_cases ssl : sending.msgType = msgAuthSsl
  · rw [Sending.sent, ssl, gtCmdPktSend_ssl sending.encryptType sending.held] at sent
    split at sent
    · cases sent
    · next envelope packed =>
      cases sent
      exact ⟨envelope, by rw [ssl], .sealed ssl packed⟩
  · rw [Sending.sent, gtCmdPktSend, if_neg plain, if_neg ssl] at sent
    cases sent

/-- A call that has returned a message has taken a packet of its length. -/
theorem Arrived.taken (arrived : Arrived sending packet exit) (gives : Gives conf last exit) :
    mismatch syncHead last = none ∧ 0 < lengthAt last ∧ lengthAt last + 24 = packet.length ∧
      packet.length ≤ last.length ∧ exit.rest.flatten = last.drop packet.length := by
  have good := arrived.errflag
  have length := arrived.pktLen
  unfold Gives at gives
  split at gives
  · cases gives
  · rw [good] at gives
    exact absurd gives.1 (by decide)
  · rw [good] at gives
    exact absurd gives.1 (by decide)
  · rw [good] at gives
    exact absurd gives.1 (by decide)
  · rw [good] at gives
    exact absurd gives.1 (by decide)
  · next count taken =>
    obtain ⟨matched, positive, same, inside⟩ := verdict_envelope taken
    rcases gives.1 with ⟨_, _, counted⟩ | failed
    · have total : count = packet.length := counted.symm.trans length
      rw [total] at same inside
      exact ⟨matched, positive, same, inside, total ▸ gives.2⟩
    · rw [good] at failed
      exact absurd failed (by decide)
  · next payload taken =>
    obtain ⟨matched, _, positive, same, inside, _⟩ := verdict_message taken
    obtain ⟨_, rest, counted, _, _⟩ := gives
    have total : payload.length + 24 = packet.length := by rw [← counted, length]
    rw [total] at inside rest
    exact ⟨matched, positive, by omega, inside, rest⟩

/-- The length of a packet whose message has been returned has room in the header, and the envelope
in it was not refused. -/
theorem Arrived.deliverable (codec : Codec conf envPack)
    (sent : sending.sent envPack = .ok packet) (fits : Fits conf sending packet)
    (plenty : conf.Plenty) (arrived : Arrived sending packet exit) (gives : Gives conf packet exit)
    (opened : sending.msgType = msgAuthSsl → Opened conf packet exit) :
    Deliverable sending packet := by
  obtain ⟨_, positive, same, _, _⟩ := arrived.taken gives
  obtain ⟨payload, rfl, carried⟩ := sent_frame sent
  have count := lengthAt_frame payload [] sending.msgType sending.encryptType
  rw [List.append_nil] at count
  rw [frame_length] at same
  have room := fits.packet
  rw [frame_length] at room
  refine ⟨by rw [frame_length]; omega, by rw [frame_length]; omega, fun ssl => ?_⟩
  by_contra long
  rw [frame_length] at long
  have taken := @verdict_sealed conf payload sending.encryptType plenty (by omega) (by omega)
    (by omega) []
  rw [List.append_nil, ← ssl] at taken
  obtain ⟨memory, _, failed⟩ := opened ssl payload.length taken
  have body := drop_frame payload [] sending.msgType sending.encryptType
  rw [List.append_nil] at body
  rw [body, List.take_left] at failed
  have error := failed (codec.refuses _ payload memory (by omega))
  rw [arrived.errflag] at error
  exact absurd error (by decide)

/-- A packet at its place is taken, and its message is returned. -/
theorem Deliverable.arrives (deliverable : Deliverable sending packet)
    (codec : Codec conf envPack) (plenty : conf.Plenty)
    (sent : sending.sent envPack = .ok packet) (fits : Fits conf sending packet) :
    search conf packet = none ∧ ∀ exit, Gives conf packet exit →
      (sending.msgType = msgAuthSsl → Opened conf packet exit) →
      Arrived sending packet exit ∧ exit.rest.flatten = [] := by
  obtain ⟨payload, rfl, carried⟩ := sent_frame sent
  obtain ⟨nonempty, counted, short⟩ := deliverable
  obtain ⟨room, inside⟩ := fits
  rw [frame_length] at nonempty counted short room
  have body := drop_frame payload [] sending.msgType sending.encryptType
  rw [List.append_nil] at body
  cases carried with
  | plain plain =>
    have taken := @verdict_frame conf (padded sending.message) sending.encryptType plenty
      (by omega) (by omega) (by omega) []
    rw [List.append_nil, ← plain] at taken
    refine ⟨search_none_of_message taken, fun exit gives _ => ?_⟩
    obtain ⟨⟨errflag, msgType, pktLen, loaded⟩, left⟩ := received_of_message taken gives
    refine ⟨⟨errflag, msgType.trans plain.symm, by rw [pktLen, frame_length], loaded⟩, ?_⟩
    rw [left, ← frame_length _ sending.msgType sending.encryptType, List.drop_length]
  | @sealed packRoom envelope ssl packed =>
    have taken := @verdict_sealed conf payload sending.encryptType plenty (by omega) (by omega)
      (by omega) []
    rw [List.append_nil, ← ssl] at taken
    refine ⟨by rw [search, taken], fun exit gives opened => ?_⟩
    obtain ⟨memory, done, _⟩ := opened ssl payload.length taken
    rw [body, List.take_left] at done
    have short := short ssl
    obtain ⟨zero, message⟩ := codec.opens _ _ _ payload memory packed (by omega) (by omega) inside
    obtain ⟨errflag, recv⟩ := done zero
    unfold Gives at gives
    rw [taken] at gives
    obtain ⟨⟨_, msgType, pktLen⟩ | failed, left⟩ := gives
    · refine ⟨⟨errflag, msgType.trans ssl.symm, by rw [pktLen, frame_length], ?_⟩, ?_⟩
      · rw [recv]
        exact message
      · rw [left, ← frame_length payload sending.msgType sending.encryptType, List.drop_length]
    · rw [errflag] at failed
      exact absurd failed (by decide)

end Delivery

/-! ### Finding the next packet -/

/-- The marks that the search still waits for behind some bytes that hold no whole mark. -/
def awaited : Bytes → Bytes → Bytes
  | marks, [] => marks
  | [], _ :: _ => []
  | mark :: marks, byte :: bytes =>
    if byte = mark then awaited marks bytes else awaited syncHead bytes

/-- The search is not in the middle of a mark behind these bytes. -/
def Idle (garbage : Bytes) : Prop := awaited syncHead garbage = syncHead

section Resynchronisation

variable {conf : Conf} {garbage packet done marks : Bytes} {byte mark : UInt8}

/-- A byte that does not fit the mark is passed together with the part of a mark in front of it. -/
theorem search_mismatch {rest : Bytes} (sync : syncHead = done ++ mark :: marks)
    (other : byte ≠ mark) : search conf (done ++ byte :: rest) = some rest := by
  have found : mismatch syncHead (done ++ byte :: rest) = some (1 + done.length) := by
    rw [sync, mismatch_append, mismatch, if_neg other]
    rfl
  rw [search, verdict, found]
  simp only
  rw [Nat.add_comm, ← List.drop_drop, List.drop_left, List.drop_succ_cons, List.drop_zero]

theorem comes_further {place next last : Bytes} (moves : search conf place = some next)
    (short : last.length < place.length) :
    Comes (search conf) place last ↔ Comes (search conf) next last := by
  constructor
  · intro way
    cases way with
    | here => exact absurd short (Nat.lt_irrefl _)
    | further taken way =>
      rw [moves] at taken
      cases taken
      exact way
  · exact .further moves

/-- A packet with a part of a mark in front of it is passed: only the first byte of a mark is the
one that a packet begins with. -/
theorem not_comes_packet {first : UInt8} (sync : syncHead = first :: done ++ mark :: marks)
    (begins : packet.head? = some 0x40) :
    ¬Comes (search conf) (first :: done ++ packet) packet := by
  intro way
  obtain ⟨rest, rfl⟩ := List.head?_eq_some_iff.mp begins
  have later : mark ∈ syncHead.tail := by
    rw [sync]
    exact List.mem_append_right _ List.mem_cons_self
  have other : (0x40 : UInt8) ≠ mark := fun same => absurd (same ▸ later) (by decide)
  have moves := @search_mismatch conf _ _ _ _ rest sync other
  have less : (0x40 :: rest).length < (first :: done ++ 0x40 :: rest).length := by
    simp only [List.length_append, List.length_cons]
    omega
  rw [comes_further moves less] at way
  exact absurd (comes_suffix way).length_le (Nat.not_succ_le_self _)

/-- Behind bytes that hold no whole mark the search comes to the packet exactly if it then waits
for the mark from its first byte on. The marks that have been found so far stand in front. -/
theorem comes_packet_iff (sync : syncHead = done ++ marks) (unfinished : marks ≠ [])
    (begins : packet.head? = some 0x40)
    (clear : ∀ place < done.length + garbage.length,
      ¬syncHead <+: (done ++ (garbage ++ packet)).drop place) :
    Comes (search conf) (done ++ (garbage ++ packet)) packet ↔
      awaited marks garbage = syncHead := by
  induction garbage generalizing done marks with
  | nil =>
    rw [awaited, List.nil_append]
    cases done with
    | nil =>
      rw [List.nil_append] at sync
      rw [List.nil_append]
      exact iff_of_true .here sync.symm
    | cons first done =>
      obtain ⟨mark, marks, rfl⟩ := List.exists_cons_of_ne_nil unfinished
      refine iff_of_false (not_comes_packet sync begins) fun same => ?_
      have lengths := congrArg List.length sync
      rw [← same] at lengths
      simp only [List.length_append, List.length_cons] at lengths
      omega
  | cons byte garbage inductionHypothesis =>
    obtain ⟨mark, marks, rfl⟩ := List.exists_cons_of_ne_nil unfinished
    rw [awaited]
    by_cases same : byte = mark
    · rw [if_pos same]
      have shifted : done ++ (byte :: garbage ++ packet) =
          (done ++ [mark]) ++ (garbage ++ packet) := by
        rw [same, List.append_assoc, List.singleton_append, List.cons_append]
      have nextSync : syncHead = (done ++ [mark]) ++ marks := by
        rw [sync, List.append_assoc, List.singleton_append]
      rw [shifted] at clear ⊢
      have nextUnfinished : marks ≠ [] := by
        rintro rfl
        rw [List.append_nil] at nextSync
        refine clear 0 (by rw [List.length_cons]; omega) ?_
        rw [List.drop_zero, nextSync]
        exact List.prefix_append _ _
      refine inductionHypothesis nextSync nextUnfinished fun place inside => clear place ?_
      rw [List.length_append, List.length_singleton] at inside
      rw [List.length_cons]
      omega
    · rw [if_neg same]
      have moves := @search_mismatch conf _ _ _ _ (garbage ++ packet) sync same
      have less : packet.length < (done ++ byte :: (garbage ++ packet)).length := by
        rw [List.length_append, List.length_cons, List.length_append]
        omega
      rw [List.cons_append, comes_further moves less]
      refine @inductionHypothesis [] syncHead rfl (List.cons_ne_nil _ _) fun place inside => ?_
      have further := clear (done.length + (1 + place)) (by
        rw [List.length_cons]
        rw [List.length_nil] at inside
        omega)
      rwa [← List.drop_drop, List.drop_left, List.cons_append, Nat.add_comm, List.drop_succ_cons]
        at further

/-- A packet behind garbage is found at its place. -/
theorem comes_behind_garbage (begins : packet.head? = some 0x40)
    (clear : ∀ place < garbage.length, ¬syncHead <+: (garbage ++ packet).drop place) :
    Comes (search conf) (garbage ++ packet) packet ↔ Idle garbage :=
  @comes_packet_iff conf garbage packet [] syncHead rfl (List.cons_ne_nil _ _) begins
    fun place inside =>
    clear place (by rwa [List.length_nil, Nat.zero_add] at inside)

/-- The place where a packet is taken, from what is left of the stream there. -/
theorem place_eq {stream last : Bytes} (suffix : packet <:+ stream)
    (way : Comes (search conf) stream last) (same : last.length = packet.length) :
    last = packet :=
  (List.suffix_of_suffix_length_le (comes_suffix way) suffix same.le).eq_of_length same

/-- The place where a message is returned is that of its packet, if there is no mark in front of the
packet, or if nothing is left of the stream behind it. -/
theorem Arrived.at_packet {sending : Sending} {exit : Exit} {last front : Bytes}
    (arrived : Arrived sending packet exit) (gives : Gives conf last exit)
    (way : Comes (search conf) (front ++ packet) last)
    (alone : (∀ place < front.length, ¬syncHead <+: (front ++ packet).drop place) ∨
      exit.rest.flatten = []) : last = packet := by
  obtain ⟨matched, positive, count, enough, rest⟩ := arrived.taken gives
  refine place_eq (List.suffix_append _ _) way (Nat.le_antisymm ?_ enough)
  rcases alone with first | nothing
  · obtain ⟨passed, split⟩ := comes_suffix way
    have lengths := congrArg List.length split
    rw [List.length_append, List.length_append] at lengths
    -- A mark further to the front would be an earlier one.
    by_contra longer
    have four : syncHead.length ≤ last.length := by
      have size : syncHead.length = 4 := rfl
      omega
    refine first passed.length (by omega) ?_
    rw [← split, List.drop_left, ← mismatch_none matched four]
    exact List.take_prefix _ _
  · rw [rest] at nothing
    exact List.drop_eq_nil_iff.mp nothing

/-- A packet that no mark stands in front of has a call of its own. -/
theorem not_burdened_of_first
    (first : ∀ place < garbage.length, ¬syncHead <+: (garbage ++ packet).drop place) :
    ¬Burdened conf (garbage ++ packet) packet := by
  rintro ⟨long, next, way, ⟨matched, header, _, _⟩, moves, rest⟩
  obtain ⟨_, _, _, less⟩ := search_some moves
  have behind := (comes_suffix rest).length_le
  obtain ⟨passed, split⟩ := comes_suffix way
  have lengths := congrArg List.length split
  rw [List.length_append, List.length_append] at lengths
  refine first passed.length (by omega) ?_
  rw [← split, List.drop_left, ← mismatch_none matched (Nat.le_trans (by decide) header)]
  exact List.take_prefix _ _

/-- A packet behind bytes that hold no mark arrives exactly if the search is idle behind them, the
packet is not empty and has a length which the header can hold, and it can be opened. -/
theorem resynchronises_iff (conf : Conf) (plenty : conf.Plenty)
    (envPack : UInt8 → Bytes → Nat → Except Int Bytes) (codec : Codec conf envPack)
    (sending : Sending) (garbage packet : Bytes) (sent : sending.sent envPack = .ok packet)
    (fits : Fits conf sending packet)
    (first : ∀ place < garbage.length, ¬syncHead <+: (garbage ++ packet).drop place) :
    Returns conf (garbage ++ packet) (Arrived sending packet) ↔
      Idle garbage ∧ Deliverable sending packet := by
  have begins : packet.head? = some 0x40 := by
    obtain ⟨payload, rfl, _⟩ := sent_frame sent
    rfl
  have light := @not_burdened_of_first conf garbage packet first
  rw [← @comes_behind_garbage conf garbage packet begins first]
  constructor
  · intro returns
    obtain ⟨last, exit, way, _, gives, opened, arrived⟩ := opened_of_returns returns
    have here := arrived.at_packet gives way (.inl first)
    subst here
    exact ⟨way, arrived.deliverable codec sent fits plenty gives fun _ => opened (.inr light)⟩
  · rintro ⟨way, deliverable⟩
    obtain ⟨stops, arrives⟩ := deliverable.arrives codec plenty sent fits
    exact returns_of_opened way stops fun exit gives opened =>
      (arrives exit gives fun _ => opened (.inr light)).1

/-- A packet that the search has passed does not arrive. -/
theorem not_returns_of_passed {stream middle : Bytes} {sending : Sending}
    (way : Comes (search conf) stream middle) (short : middle.length < packet.length) :
    ¬Returns conf stream (Arrived sending packet) := by
  intro returns
  obtain ⟨last, exit, lastWay, stops, gives, arrived⟩ := stops_of_returns returns
  obtain ⟨_, _, _, enough, _⟩ := arrived.taken gives
  have less := (comes_suffix (lastWay.behind stops way)).length_le
  omega

/-- One byte like the first one of the mark hides the packet behind it. -/
theorem packet_hidden :
    (sendingOf [1, 2, 3]).sent (fun _ _ _ => .error 1) = .ok (sendingOf [1, 2, 3]).packet ∧
      Fits roomy (sendingOf [1, 2, 3]) (sendingOf [1, 2, 3]).packet ∧
      (∀ place < [(0x40 : UInt8)].length,
        ¬syncHead <+: ([0x40] ++ (sendingOf [1, 2, 3]).packet).drop place) ∧
      ¬Returns roomy ([0x40] ++ (sendingOf [1, 2, 3]).packet)
        (Arrived (sendingOf [1, 2, 3]) (sendingOf [1, 2, 3]).packet) := by
  have moves : search roomy ([0x40] ++ (sendingOf [1, 2, 3]).packet) =
      some (sendingOf [1, 2, 3]).packet.tail :=
    @search_mismatch roomy [0x40] [0xaa, 0x55] 0x40 0x55 _ rfl (by decide)
  exact ⟨sent_packet _ rfl, ⟨by decide, by decide⟩, by decide,
    not_returns_of_passed (.further moves .here) (by decide)⟩

end Resynchronisation

/-! ### Envelopes -/

/-- `env_pack`, with a library for the ciphers. -/
def envPackOf (crypto : Envelope.Crypto) (etype : UInt8) (plain : Bytes) (room : Nat) :
    Except Int Bytes :=
  match Envelope.envPack crypto etype.toNat plain (fun _ => 0) room with
  | some (.ok (ebuf, elen)) => .ok (load ebuf 0 elen)
  | _ => .error 1

/-- `env_unpack`, with the message and a zero behind the header of the buffer. -/
def envUnpackOf (crypto : Envelope.Crypto) (etype : UInt8) (envelope : Bytes) (room : Nat)
    (memory : Memory) : Int × Memory :=
  match Envelope.envUnpack crypto etype.toNat envelope room with
  | some (.ok plain) => (0, store memory headSize (plain ++ [0]))
  | _ => (1, memory)

section Envelopes

variable {crypto : Envelope.Crypto} {etype : UInt8} {plain envelope : Bytes} {room : Nat}

/-- What is packed is the sections of an envelope. -/
theorem envPackOf_ok (lawful : crypto.Lawful)
    (packed : envPackOf crypto etype plain room = .ok envelope) :
    ∃ sealed, crypto.doSeal (Envelope.getCipher etype.toNat) plain = .ok sealed ∧
      envelope = (Envelope.sections sealed).flatten := by
  unfold envPackOf at packed
  split at packed
  · next ebuf elen result =>
    cases packed
    by_cases long : Envelope.maxDataLen < plain.length
    · rw [Envelope.envPack, if_pos long] at result
      cases result
    by_cases narrow : room < Envelope.envBufferMin crypto plain.length
    · rw [Envelope.envPack, if_neg long, if_pos narrow] at result
      cases result
    cases seals : crypto.doSeal (Envelope.getCipher etype.toNat) plain with
    | error error =>
      rw [Envelope.envPack, if_neg long, if_neg narrow, seals] at result
      cases result
    | ok sealed =>
      obtain ⟨_, after, other, loaded⟩ := Envelope.envPack_sections lawful (fun _ => 0)
        (Nat.not_lt.mp long) (Nat.not_lt.mp narrow) seals
      rw [other] at result
      cases result
      exact ⟨sealed, rfl, loaded⟩
  · cases packed

theorem envPackOf_sealed (lawful : crypto.Lawful) {sealed : Envelope.Sealed}
    (short : plain.length ≤ Envelope.maxDataLen)
    (accepted : Envelope.envBufferMin crypto plain.length ≤ room)
    (seals : crypto.doSeal (Envelope.getCipher etype.toNat) plain = .ok sealed) :
    envPackOf crypto etype plain room = .ok (Envelope.sections sealed).flatten := by
  obtain ⟨_, after, packed, loaded⟩ :=
    Envelope.envPack_sections lawful (fun _ => 0) short accepted seals
  rw [envPackOf, packed, ← loaded]

/-- The packer and the unpacker of envelopes are such a pair. -/
theorem codec_of_lawful (lawful : crypto.Lawful) {conf : Conf}
    (unpacks : conf.envUnpack = envUnpackOf crypto) : Codec conf (envPackOf crypto) where
  opens etype plain room envelope memory packed short fits inside := by
    obtain ⟨sealed, seals, rfl⟩ := envPackOf_ok lawful packed
    rw [Envelope.sections_length] at short fits
    have opened := @Envelope.envUnpack_sections crypto etype.toNat sealed plain conf.bufLen
      (lawful.opens _ _ _ seals) short (by omega) (by omega)
    rw [unpacks, envUnpackOf, opened]
    refine ⟨rfl, ?_⟩
    have stored := load_store memory headSize (plain ++ [0])
    rw [List.length_append, load_add] at stored
    exact (List.append_inj stored (load_length _ _ _)).1
  refuses etype envelope memory long := by
    have refused : Envelope.envUnpack crypto etype.toNat envelope conf.bufLen =
        some (.error .dataExceed) := if_pos (by exact_mod_cast long)
    rw [unpacks, envUnpackOf, refused]
    exact Int.one_ne_zero

/-- A buffer of 192 bytes, and envelopes that are only padded. -/
def sealedRoom : Conf where
  bufLen := 192
  room := by decide
  given := false
  memalign _ := some fun _ => 0
  envUnpack := envUnpackOf Envelope.padding

theorem sealedRoom_plenty : sealedRoom.Plenty := fun _ => ⟨fun _ => 0, rfl⟩

/-- A message that is sent in an envelope, under the triple cipher. -/
def sealedOf (message : Bytes) : Sending :=
  { sendingOf message with msgType := msgAuthSsl, encryptType := 2 }

theorem length_iv : (List.replicate 8 (0 : UInt8)).length = Envelope.ivSize :=
  List.length_replicate

/-- The packet of one byte in an envelope. -/
def sealedPacket : Bytes :=
  frame (Envelope.sections ⟨List.replicate 8 0, List.replicate 128 7, Envelope.pad [1, 0, 0, 0],
    length_iv⟩).flatten msgAuthSsl 2

theorem sealed_sent : (sealedOf [1]).sent (envPackOf Envelope.padding) = .ok sealedPacket := by
  have packed := @envPackOf_sealed Envelope.padding 2 [1, 0, 0, 0] 500 Envelope.padding_lawful
    ⟨List.replicate 8 0, List.replicate 128 7, Envelope.pad [1, 0, 0, 0], length_iv⟩
    (by decide) (by decide) rfl
  have sent := @gtCmdPktSend_ssl (envPackOf Envelope.padding) (sealedOf [1]).send [1] 2
    (sealedOf [1]).held
  have filled : padded [1] = [1, 0, 0, 0] := by decide
  rw [filled, show ebufAddon + ([(1 : UInt8)].length + padding [(1 : UInt8)].length) - headSize =
    500 from rfl, packed] at sent
  exact sent

theorem sealed_fits : Fits sealedRoom (sealedOf [1]) sealedPacket :=
  ⟨by decide +kernel, by decide +kernel⟩

theorem sealed_codec : Codec sealedRoom (envPackOf Envelope.padding) :=
  codec_of_lawful Envelope.padding_lawful rfl

end Envelopes

/-- A packet behind bytes that hold no mark arrives in an envelope, too. -/
theorem resynchronises_envelope :
    Returns sealedRoom ([0x40, 0x55, 1] ++ sealedPacket) (Arrived (sealedOf [1]) sealedPacket) :=
  (resynchronises_iff sealedRoom sealedRoom_plenty (envPackOf Envelope.padding) sealed_codec
    (sealedOf [1]) [0x40, 0x55, 1] sealedPacket sealed_sent sealed_fits
    (by decide +kernel)).mpr
    ⟨rfl, ⟨by decide +kernel, by decide +kernel, fun _ => by decide +kernel⟩⟩

/-! ### Packets that are too long -/

section Dropping

variable {conf : Conf} {dropped packet long : Bytes} {pieces : List Bytes}

/-- What is passed of a packet that gets a block is longer than 520 bytes. -/
theorem Long.passes {piece rest : Bytes} (longHead : Long conf (piece ++ rest))
    (moves : search conf (piece ++ rest) = some rest) : 520 < piece.length := by
  obtain ⟨count, skips, same, _⟩ := search_some moves
  have bounds := verdict_skip skips
  have lengths := congrArg List.length same
  rw [List.length_drop, List.length_append] at lengths
  rw [List.length_append] at bounds
  have long := longHead.long
  rcases verdict_skip_iff.mp skips with found | ⟨_, _, ⟨drops, _⟩ | ⟨_, _, counted, _, _⟩⟩
  · rw [longHead.matched] at found
    cases found
  · exact absurd drops longHead.kept
  · unfold tmpbufLen at long
    omega

/-- A block that is in use behind some bytes is that of a long piece of them. -/
theorem Cut.long_piece (cut : Cut conf.bufLen dropped pieces) (plenty : conf.Plenty)
    (burdened : Burdened conf (dropped ++ packet) packet) :
    ∃ piece ∈ pieces, 520 < piece.length := by
  obtain ⟨long, next, way, longHead, moves, rest⟩ := burdened
  obtain ⟨rfl, kinds⟩ := cut
  induction pieces with
  | nil =>
    obtain ⟨_, _, _, less⟩ := search_some moves
    have first := (comes_suffix way).length_le
    have second := (comes_suffix rest).length_le
    rw [List.flatten_nil, List.nil_append] at first
    omega
  | cons piece pieces inductionHypothesis =>
    rw [List.flatten_cons, List.append_assoc] at way
    have passed := @search_piece conf (pieces.flatten ++ packet) piece plenty
      (kinds piece List.mem_cons_self)
    cases way with
    | here => exact ⟨piece, List.mem_cons_self, longHead.passes passed⟩
    | further taken way =>
      rw [passed] at taken
      cases taken
      obtain ⟨other, member, size⟩ := inductionHypothesis (fun other member =>
        kinds other (List.mem_cons_of_mem _ member)) way
      exact ⟨other, List.mem_cons_of_mem _ member, size⟩

/-- The packet of 160 zeros, too long for a buffer of 192 bytes. -/
def zeros : Bytes := (sendingOf (List.replicate 160 0)).packet

/-- Its header, and the bytes behind it one by one. -/
def zerosPieces : List Bytes := zeros.take 16 :: (zeros.drop 16).map fun byte => [byte]

theorem zeros_cut : Cut sealedRoom.bufLen zeros zerosPieces where
  whole := by decide +kernel
  kinds piece member := by
    rcases List.mem_cons.mp member with rfl | single
    · exact .inr (.inl ⟨by decide +kernel, by decide +kernel, by decide +kernel⟩)
    · obtain ⟨byte, inside, rfl⟩ := List.mem_map.mp single
      have clear : (0x40 : UInt8) ∉ zeros.drop 16 := by decide +kernel
      exact .inl ⟨[], 0x40, [0x55, 0xaa, 0x55], byte, rfl, fun same => clear (same ▸ inside), rfl⟩

/-- A message with a packet in it, too long for a buffer of sixty-four bytes. -/
def nested : Sending := sendingOf ((sendingOf [1, 2, 3, 4]).packet ++ [0, 0, 0, 0])

end Dropping

end ExmOnvif.GtComApi
