/-
This file models how a file is sent to a remote computer, and proves which files arrive.

The whole file is put into one packet, behind the header of a command and a few fields
with its type and its length. Three lengths are kept: that of the file in 32 bits, and
in 16 bits each that of the command and that of the packet, counted from different
places. Nothing is checked when they are computed. A file that is too long for one of
the two is sent with what is left of its length, the sender reports success, and the
receiver takes less or nothing at all.
-/

import ExmOnvif.GtComApi.Delivery
import ExmOnvif.Gtsocket.Transfer

namespace ExmOnvif.Ipmain

open Library GtComApi

/-! ### The sender -/

/-- The device types that make a difference here. -/
inductive DevType where
  | gtvs3022
  | gtmv3122
  | other
deriving DecidableEq, Repr

/-- `DEV_PARA_RETURN`. -/
def devParaReturn : Nat := 0x8109

/-- `DEV_GUID_BYTE`. -/
def devGuidByte : Nat := 8

/-- What the function finds on its machine. -/
structure Machine where
  /-- `info.guid`. -/
  guid : Bytes
  guid_length : guid.length = devGuidByte
  /-- `get_devtype`. -/
  devtype : DevType
  /-- The files, as `stat` and `fread` find them. -/
  files : String → Option Bytes
  /-- Whether `fopen` can open one. -/
  opens : String → Bool
  /-- The block that `posix_memalign` gives for so many bytes, with whatever is in it. -/
  memalign : Nat → Option Memory
  /-- The replies of `write` on the connection. -/
  kernel : Gtsocket.Kernel
  /-- `env_pack`, of the type, the message and the room. -/
  envPack : UInt8 → Bytes → Nat → Except Int Bytes

/-- `virdev_get_devid`. -/
def Machine.virdevGetDevid (machine : Machine) (virdevNo : Int) : Bytes :=
  if (machine.devtype = .gtvs3022 ∨ machine.devtype = .gtmv3122) ∧ virdevNo ≠ 0 then
    machine.guid.set (devGuidByte - 1) (machine.guid.getD (devGuidByte - 1) 0 + 1)
  else machine.guid

/-- The two bytes of a `WORD`. -/
def halfBytes (value : Nat) : Bytes := [UInt8.ofNat value, UInt8.ofNat (value / 2 ^ 8)]

/-- `sendcmd->len`, which has sixteen bits. -/
def replyLen (size : Nat) : Nat := (10 - 2 - 2 + 20 - 4 + size) % 2 ^ 16

/-- The place of the parameters of the command in the packet. -/
def paraAt : Nat := headSize + 8

/-- The stores into the buffer, in their order: the command, the fields in front of the file, and
the file. -/
def fillReply (devId file : Bytes) (type : UInt16) (enack : UInt8) (s : Memory) : Memory :=
  let s := store s headSize (halfBytes (replyLen file.length))
  let s := store s (headSize + 2) (halfBytes devParaReturn)
  let s := store s (headSize + 4) [enack]
  let s := store s (headSize + 5) [0]
  let s := store s (headSize + 6) (halfBytes 0)
  let s := store s paraAt devId
  let s := store s (paraAt + 8) (halfBytes type.toNat)
  let s := store s (paraAt + 12) (wordBytes (file.length % 2 ^ 32))
  let s := store s (paraAt + 10) (halfBytes 0)
  store s (paraAt + 16) file

/-- `SendAFile2Rmt`: what it returns, and the pieces in which it has written to the connection. -/
def sendAFile2Rmt (fuel : Nat) (machine : Machine) (fd : Int) (filename : Option String)
    (type : UInt16) (env enc enack : UInt8) (devNo : Int) : Option (Int × List Bytes) :=
  if fd < 0 then some (-22, [])
  else
    match filename with
    | none => some (-22, [])
    | some name =>
      match machine.files name with
      | none => some (-2, [])
      | some file =>
        if machine.opens name = false then some (-2, [])
        else
          match machine.memalign (file.length + 1024) with
          | none => some (-12, [])
          | some sendbuf =>
            let send := fillReply (machine.virdevGetDevid devNo) file type enack sendbuf
            match gtCmdPktSend machine.envPack send (replyLen file.length + 2) env enc with
            | .error .einval => some (-22, [])
            | .error .eio => some (-5, [])
            | .ok packet =>
              (Gtsocket.netWriteBuf fuel machine.kernel packet).map fun (pieces, ret) =>
                (if 0 ≤ ret then 0 else ret, pieces)

/-! ### What has to arrive -/

/-- A command has been received with its length, and with the length of the file and the whole
file. -/
structure WholeFile (file : Bytes) (exit : Exit) : Prop where
  errflag : exit.errflag = 0
  msgType : exit.msgType = gtCmdNoAuth
  len : (exit.recv headSize).toNat + 2 ^ 8 * (exit.recv (headSize + 1)).toNat + 2 =
    24 + file.length
  inside : 24 + file.length ≤ exit.pktLen
  filelen : getUnaligned exit.recv (paraAt + 12) = file.length
  content : load exit.recv (paraAt + 16) file.length = file

/-- Whoever receives what was written with a large enough buffer has the whole file. -/
def Arrives (file : Bytes) (pieces : List Bytes) : Prop :=
  ∀ conf : Conf, conf.Plenty → file.length + 63 ≤ conf.bufLen → ∀ rest,
    Returns conf (pieces.flatten ++ rest) (WholeFile file)

/-! ### The message -/

section Message

variable {devId file : Bytes} {type : UInt16} {enack : UInt8} {s : Memory}

theorem virdevGetDevid_length (machine : Machine) (virdevNo : Int) :
    (machine.virdevGetDevid virdevNo).length = devGuidByte := by
  unfold Machine.virdevGetDevid
  split
  · rw [List.length_set, machine.guid_length]
  · exact machine.guid_length

/-- The fields in front of the file. -/
def replyFields (devId : Bytes) (size : Nat) (type : UInt16) (enack : UInt8) : Bytes :=
  halfBytes (replyLen size) ++ (halfBytes devParaReturn ++ ([enack, 0, 0, 0] ++
    (devId ++ (halfBytes type.toNat ++ (halfBytes 0 ++ wordBytes (size % 2 ^ 32))))))

theorem replyFields_length (length : devId.length = devGuidByte) (size : Nat) :
    (replyFields devId size type enack).length = 24 := by
  simp only [replyFields, halfBytes, List.length_append, List.length_cons, List.length_nil,
    wordBytes_length, length, devGuidByte]

/-- What the stores leave in the buffer. -/
theorem load_fillReply (length : devId.length = devGuidByte) :
    load (fillReply devId file type enack s) headSize (24 + file.length) =
      replyFields devId file.length type enack ++ file := by
  have content : load (fillReply devId file type enack s) (headSize + 24) file.length = file :=
    load_store _ _ _
  have fields : load (fillReply devId file type enack s) headSize 24 =
      replyFields devId file.length type enack := by
    match devId, length with
    | [_, _, _, _, _, _, _, _], _ => rfl
  rw [load_add, fields, content]

/-- A string that is loaded holds its two parts one behind the other. -/
theorem load_parts {memory : Memory} {place total : Nat} {first second : Bytes}
    (loaded : load memory place total = first ++ second) :
    load memory place first.length = first ∧
      load memory (place + first.length) second.length = second := by
  have count : total = first.length + second.length := by
    rw [← load_length memory place total, loaded, List.length_append]
  rw [count, load_add] at loaded
  exact List.append_inj loaded (load_length _ _ _)

/-- Whoever receives the fields and the file has the whole file. -/
theorem wholeFile_of_received (length : devId.length = devGuidByte)
    (short : file.length ≤ 65496) {exit : Exit}
    (received : Received (replyFields devId file.length type enack ++ file) exit) :
    WholeFile file exit := by
  obtain ⟨errflag, msgType, pktLen, loaded⟩ := received
  have fieldsLength := @replyFields_length devId type enack length file.length
  rw [GtComApi.padded, List.append_assoc] at loaded
  obtain ⟨fields, rest⟩ := load_parts loaded
  obtain ⟨content, _⟩ := load_parts rest
  rw [fieldsLength] at content
  rw [replyFields] at fields
  obtain ⟨len, fields⟩ := load_parts fields
  obtain ⟨_, fields⟩ := load_parts fields
  obtain ⟨_, fields⟩ := load_parts fields
  obtain ⟨_, fields⟩ := load_parts fields
  obtain ⟨_, fields⟩ := load_parts fields
  obtain ⟨_, filelen⟩ := load_parts fields
  rw [length] at filelen
  have small : replyLen file.length = file.length + 22 := by
    unfold replyLen
    omega
  refine ⟨errflag, msgType, ?_, ?_, ?_, content⟩
  · have low : exit.recv headSize = UInt8.ofNat (replyLen file.length) :=
      (List.cons.inj len).1
    have high : exit.recv (headSize + 1) = UInt8.ofNat (replyLen file.length / 2 ^ 8) :=
      (List.cons.inj (List.cons.inj len).2).1
    rw [low, high, UInt8.toNat_ofNat', UInt8.toNat_ofNat', small]
    omega
  · rw [pktLen, GtComApi.padded_length, List.length_append, fieldsLength]
    exact Nat.le_add_right _ _
  · have word : load exit.recv (paraAt + 12) 4 = wordBytes (file.length % 2 ^ 32) := filelen
    rw [getUnaligned, word, wordOf_wordBytes (Nat.mod_lt _ (by decide)),
      Nat.mod_eq_of_lt (by omega)]

/-! ### Which files arrive -/

/-- What is left of the message in the packet. -/
def replyMessage (devId file : Bytes) (type : UInt16) (enack : UInt8) (s : Memory) : Bytes :=
  load (fillReply devId file type enack s) headSize (replyLen file.length + 2)

theorem replyMessage_length :
    (replyMessage devId file type enack s).length = replyLen file.length + 2 :=
  load_length _ _ _

/-- The message with its packet, sent without encryption. -/
def reply (devId file : Bytes) (type : UInt16) (enc enack : UInt8) (s : Memory) : Sending where
  send := fillReply devId file type enack s
  message := replyMessage devId file type enack s
  held := by rw [replyMessage_length, replyMessage]
  msgType := gtCmdNoAuth
  encryptType := enc

theorem arrives_of_short {enc : UInt8} (length : devId.length = devGuidByte)
    (short : file.length ≤ 65496) {pieces : List Bytes}
    (written : pieces.flatten = (reply devId file type enc enack s).packet) :
    Arrives file pieces := by
  intro conf plenty large rest
  have small : replyLen file.length + 2 = 24 + file.length := by
    unfold replyLen
    omega
  have message : (reply devId file type enc enack s).message =
      replyFields devId file.length type enack ++ file := by
    show replyMessage devId file type enack s = _
    rw [replyMessage, small, load_fillReply length]
  have count : (GtComApi.padded (reply devId file type enc enack s).message).length =
      24 + file.length + padding (24 + file.length) := by
    rw [GtComApi.padded_length, message, List.length_append, replyFields_length length]
  have filled : padding (24 + file.length) ≤ 3 ∧
      (24 + file.length + padding (24 + file.length)) % 4 = 0 := by
    unfold padding
    split <;> omega
  have sendable : Sendable conf (reply devId file type enc enack s) := by
    refine ⟨rfl, ?_, ?_, ?_⟩
    · rw [message, List.length_append, replyFields_length length]
      omega
    · rw [count]
      omega
    · rw [count]
      omega
  rw [written]
  intro recv tbuf socket flat
  obtain ⟨exit, called, received, _⟩ := receive_packet sendable plenty rest recv tbuf socket flat
  rw [message] at received
  exact ⟨exit, called, wholeFile_of_received length short received⟩

/-- The length in a header has sixteen bits. -/
theorem lengthAt_le (bytes : Bytes) : lengthAt bytes ≤ 65521 := by
  have low := (bytes.getD 4 0).toNat_lt
  have high := (bytes.getD 5 0).toNat_lt
  unfold lengthAt
  omega

/-- A buffer that is large enough, with memory for long packets. -/
def roomFor (file : Bytes) : Conf where
  bufLen := file.length + 63
  room := by omega
  given := false
  memalign _ := some fun _ => 0
  envUnpack _ _ _ memory := (0, memory)

/-- The packet of a file of 65497 bytes comes with a length below that of its header. -/
theorem verdict_of_size {enc : UInt8} (size : file.length = 65497) :
    verdict (roomFor file) ((reply devId file type enc enack s).packet ++ []) = .short := by
  have header : lengthAt ((reply devId file type enc enack s).packet ++ []) ≤ 0 := by
    rw [Sending.packet, lengthAt_frame, GtComApi.padded_length]
    show ((((replyMessage devId file type enack s).length +
      padding (replyMessage devId file type enack s).length + 14) % 2 ^ 16 : Nat) : Int) - 14 ≤ 0
    rw [replyMessage_length, size]
    decide
  have enough : ¬((reply devId file type enc enack s).packet ++ []).length < 16 := by
    rw [List.append_nil, packet_length]
    omega
  have kept : ¬Dropped (roomFor file) ((reply devId file type enc enack s).packet ++ []) := by
    rintro (far | broken | ⟨_, nowhere⟩)
    · have room : ((roomFor file).bufLen : Int) = file.length + 63 := rfl
      omega
    · exact broken (xor_frame _ _ _ _)
    · cases nowhere
  unfold verdict
  rw [Sending.packet, mismatch_frame]
  simp only
  rw [Sending.packet] at enough kept header
  rw [if_neg enough, if_neg kept, if_pos header]

theorem not_arrives_of_long {enc : UInt8} (long : 65496 < file.length) {pieces : List Bytes}
    (written : pieces.flatten = (reply devId file type enc enack s).packet) :
    ¬Arrives file pieces := by
  intro arrives
  have plenty : (roomFor file).Plenty := fun _ => ⟨_, rfl⟩
  obtain ⟨last, exit, way, stops, gives, whole⟩ :=
    stops_of_returns (arrives (roomFor file) plenty (Nat.le_refl _) [])
  obtain ⟨payload, taken, count, _⟩ := taken_of_ok gives whole.errflag whole.msgType
  obtain ⟨_, _, _, same, _⟩ := verdict_message taken
  have inside := whole.inside
  have below := lengthAt_le last
  -- Only the packet of a file of 65497 bytes could hold it, and there the length is below that of
  -- the header.
  have size : file.length = 65497 := by omega
  rw [written] at way
  have stopsHere : search (roomFor file) ((reply devId file type enc enack s).packet ++ []) =
      none := by rw [search, verdict_of_size size]
  rw [way.unique stops stopsHere .here, verdict_of_size size] at taken
  cases taken

end Message

section Sender

variable {fuel : Nat} {machine : Machine} {fd devNo ret : Int} {name : String} {type : UInt16}
  {enc enack : UInt8} {file : Bytes} {pieces : List Bytes} {sendbuf : Memory}

/-- A file that can be read is written to the connection in a packet. -/
theorem sendAFile2Rmt_eq (valid : 0 ≤ fd) (stored : machine.files name = some file)
    (opened : machine.opens name = true)
    (given : machine.memalign (file.length + 1024) = some sendbuf) :
    sendAFile2Rmt fuel machine fd (some name) type gtCmdNoAuth enc enack devNo =
      (Gtsocket.netWriteBuf fuel machine.kernel
        (reply (machine.virdevGetDevid devNo) file type enc enack sendbuf).packet).map
          fun (pieces, ret) => (if 0 ≤ ret then 0 else ret, pieces) := by
  have packet : gtCmdPktSend machine.envPack
      (fillReply (machine.virdevGetDevid devNo) file type enack sendbuf) (replyLen file.length + 2)
        gtCmdNoAuth enc =
      .ok (reply (machine.virdevGetDevid devNo) file type enc enack sendbuf).packet := by
    have sent := @sent_packet machine.envPack
      (reply (machine.virdevGetDevid devNo) file type enc enack sendbuf) rfl
    have count : (reply (machine.virdevGetDevid devNo) file type enc enack
        sendbuf).message.length = replyLen file.length + 2 := replyMessage_length
    rwa [Sending.sent, count] at sent
  unfold sendAFile2Rmt
  rw [if_neg (Int.not_lt.mpr valid)]
  simp only [stored, opened, given, packet, Bool.true_eq_false, if_false]

/-- What is written when the sender reports success. -/
theorem sent_reply (stored : machine.files name = some file)
    (sent : sendAFile2Rmt fuel machine fd (some name) type gtCmdNoAuth enc enack devNo =
      some (ret, pieces))
    (good : 0 ≤ ret) :
    ∃ sendbuf, pieces.flatten =
      (reply (machine.virdevGetDevid devNo) file type enc enack sendbuf).packet := by
  have failed : ∀ error : Int, error < 0 → some (error, []) = some (ret, pieces) → False := by
    intro error negative same
    cases same
    omega
  have valid : 0 ≤ fd := by
    by_contra negative
    rw [sendAFile2Rmt, if_pos (Int.not_le.mp negative)] at sent
    exact failed _ (by decide) sent
  have opened : machine.opens name = true := by
    by_contra closed
    unfold sendAFile2Rmt at sent
    rw [if_neg (Int.not_lt.mpr valid)] at sent
    simp only [stored, Bool.not_eq_true _ |>.mp closed, if_true] at sent
    exact failed _ (by decide) sent
  cases given : machine.memalign (file.length + 1024) with
  | none =>
    unfold sendAFile2Rmt at sent
    rw [if_neg (Int.not_lt.mpr valid)] at sent
    simp only [stored, opened, given, Bool.true_eq_false, if_false] at sent
    exact (failed _ (by decide) sent).elim
  | some sendbuf =>
    refine ⟨sendbuf, ?_⟩
    rw [sendAFile2Rmt_eq valid stored opened given] at sent
    obtain ⟨⟨written, count⟩, ended, same⟩ := Option.map_eq_some_iff.mp sent
    cases same
    refine Gtsocket.writeLoop_flatten ended ?_
    by_contra negative
    rw [if_neg negative] at good
    exact negative good

/-- A file that is sent with success arrives exactly if it has at most 65496 bytes. -/
theorem arrives_iff (stored : machine.files name = some file)
    (sent : sendAFile2Rmt fuel machine fd (some name) type gtCmdNoAuth enc enack devNo =
      some (ret, pieces))
    (good : 0 ≤ ret) : Arrives file pieces ↔ file.length ≤ 65496 := by
  obtain ⟨sendbuf, written⟩ := sent_reply stored sent good
  constructor
  · intro arrives
    by_contra long
    exact not_arrives_of_long (Nat.lt_of_not_le long) written arrives
  · intro short
    exact arrives_of_short (virdevGetDevid_length machine devNo) short written

end Sender

/-- A machine with one file, whose connection takes everything at once. -/
def machineWith (file : Bytes) : Machine where
  guid := [0, 1, 2, 3, 4, 5, 6, 7]
  guid_length := rfl
  devtype := .other
  files _ := some file
  opens _ := true
  memalign _ := some fun _ => 0
  kernel _ left := ⟨left, 0⟩
  envPack _ _ _ := .error 1

/-- There a file of any size is sent with success. -/
theorem sendAFile2Rmt_machineWith (file : Bytes) :
    ∃ pieces, sendAFile2Rmt 2 (machineWith file) 5 (some "/var/tmp/gtinfo.dat") 2 gtCmdNoAuth 0 0
      0 = some (0, pieces) := by
  have whole : ∀ wp : Bytes, 0 < wp.length →
      Gtsocket.netWriteBuf 2 (machineWith file).kernel wp = some ([wp], (wp.length : Int)) := by
    intro wp some
    rw [Gtsocket.netWriteBuf, Gtsocket.writeLoop_taken some (Nat.le_refl _) rfl,
      List.drop_length, List.take_length]
    rfl
  have sent := @sendAFile2Rmt_eq 2 (machineWith file) 5 0 "/var/tmp/gtinfo.dat" 2 0 0 file
    (fun _ => 0) (by decide) rfl rfl rfl
  rw [whole _ (by rw [packet_length]; omega), Option.map_some] at sent
  simp only [Int.natCast_nonneg, if_true] at sent
  exact ⟨_, sent⟩

theorem arrives_iff_three :
    ∃ pieces, sendAFile2Rmt 2 (machineWith [1, 2, 3]) 5 (some "/var/tmp/gtinfo.dat") 2 gtCmdNoAuth
      0 0 0 = some (0, pieces) ∧ Arrives [1, 2, 3] pieces := by
  obtain ⟨pieces, sent⟩ := sendAFile2Rmt_machineWith [1, 2, 3]
  exact ⟨pieces, sent, (arrives_iff rfl sent (Int.le_refl 0)).mpr (by decide)⟩

/-- A file of 65514 bytes is sent as an empty command. -/
theorem long_file_cut :
    ∃ pieces, sendAFile2Rmt 2 (machineWith (List.replicate 65514 0)) 5
        (some "/var/tmp/gtinfo.dat") 2 gtCmdNoAuth 0 0 0 = some (0, pieces) ∧
      ¬Arrives (List.replicate 65514 0) pieces := by
  obtain ⟨pieces, sent⟩ := sendAFile2Rmt_machineWith (List.replicate 65514 0)
  obtain ⟨sendbuf, written⟩ := sent_reply rfl sent (Int.le_refl 0)
  refine ⟨pieces, sent, not_arrives_of_long ?_ written⟩
  rw [List.length_replicate]
  decide

end ExmOnvif.Ipmain
