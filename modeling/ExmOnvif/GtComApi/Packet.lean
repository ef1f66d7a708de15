/-
This file models the packets in which the camera and its clients exchange commands,
and how a packet is put together.

A packet is a header of sixteen bytes, the message, a checksum and a mark for the end.
The sender fills the header in by stores of four bytes to fields of one and two bytes,
so that each store also writes the fields behind its own and the later stores put them
right. The machine is a little-endian one with words of four bytes.
-/

import ExmOnvif.Library.Bytes

namespace ExmOnvif.GtComApi

open Library

/-! ### The checksum -/

/-- `crc_table`. -/
def crcTable : List UInt32 :=
  [0x00000000, 0x77073096, 0xee0e612c, 0x990951ba, 0x076dc419, 0x706af48f, 0xe963a535, 0x9e6495a3,
   0x0edb8832, 0x79dcb8a4, 0xe0d5e91e, 0x97d2d988, 0x09b64c2b, 0x7eb17cbd, 0xe7b82d07, 0x90bf1d91,
   0x1db71064, 0x6ab020f2, 0xf3b97148, 0x84be41de, 0x1adad47d, 0x6ddde4eb, 0xf4d4b551, 0x83d385c7,
   0x136c9856, 0x646ba8c0, 0xfd62f97a, 0x8a65c9ec, 0x14015c4f, 0x63066cd9, 0xfa0f3d63, 0x8d080df5,
   0x3b6e20c8, 0x4c69105e, 0xd56041e4, 0xa2677172, 0x3c03e4d1, 0x4b04d447, 0xd20d85fd, 0xa50ab56b,
   0x35b5a8fa, 0x42b2986c, 0xdbbbc9d6, 0xacbcf940, 0x32d86ce3, 0x45df5c75, 0xdcd60dcf, 0xabd13d59,
   0x26d930ac, 0x51de003a, 0xc8d75180, 0xbfd06116, 0x21b4f4b5, 0x56b3c423, 0xcfba9599, 0xb8bda50f,
   0x2802b89e, 0x5f058808, 0xc60cd9b2, 0xb10be924, 0x2f6f7c87, 0x58684c11, 0xc1611dab, 0xb6662d3d,
   0x76dc4190, 0x01db7106, 0x98d220bc, 0xefd5102a, 0x71b18589, 0x06b6b51f, 0x9fbfe4a5, 0xe8b8d433,
   0x7807c9a2, 0x0f00f934, 0x9609a88e, 0xe10e9818, 0x7f6a0dbb, 0x086d3d2d, 0x91646c97, 0xe6635c01,
   0x6b6b51f4, 0x1c6c6162, 0x856530d8, 0xf262004e, 0x6c0695ed, 0x1b01a57b, 0x8208f4c1, 0xf50fc457,
   0x65b0d9c6, 0x12b7e950, 0x8bbeb8ea, 0xfcb9887c, 0x62dd1ddf, 0x15da2d49, 0x8cd37cf3, 0xfbd44c65,
   0x4db26158, 0x3ab551ce, 0xa3bc0074, 0xd4bb30e2, 0x4adfa541, 0x3dd895d7, 0xa4d1c46d, 0xd3d6f4fb,
   0x4369e96a, 0x346ed9fc, 0xad678846, 0xda60b8d0, 0x44042d73, 0x33031de5, 0xaa0a4c5f, 0xdd0d7cc9,
   0x5005713c, 0x270241aa, 0xbe0b1010, 0xc90c2086, 0x5768b525, 0x206f85b3, 0xb966d409, 0xce61e49f,
   0x5edef90e, 0x29d9c998, 0xb0d09822, 0xc7d7a8b4, 0x59b33d17, 0x2eb40d81, 0xb7bd5c3b, 0xc0ba6cad,
   0xedb88320, 0x9abfb3b6, 0x03b6e20c, 0x74b1d29a, 0xead54739, 0x9dd277af, 0x04db2615, 0x73dc1683,
   0xe3630b12, 0x94643b84, 0x0d6d6a3e, 0x7a6a5aa8, 0xe40ecf0b, 0x9309ff9d, 0x0a00ae27, 0x7d079eb1,
   0xf00f9344, 0x8708a3d2, 0x1e01f268, 0x6906c2fe, 0xf762575d, 0x806567cb, 0x196c3671, 0x6e6b06e7,
   0xfed41b76, 0x89d32be0, 0x10da7a5a, 0x67dd4acc, 0xf9b9df6f, 0x8ebeeff9, 0x17b7be43, 0x60b08ed5,
   0xd6d6a3e8, 0xa1d1937e, 0x38d8c2c4, 0x4fdff252, 0xd1bb67f1, 0xa6bc5767, 0x3fb506dd, 0x48b2364b,
   0xd80d2bda, 0xaf0a1b4c, 0x36034af6, 0x41047a60, 0xdf60efc3, 0xa867df55, 0x316e8eef, 0x4669be79,
   0xcb61b38c, 0xbc66831a, 0x256fd2a0, 0x5268e236, 0xcc0c7795, 0xbb0b4703, 0x220216b9, 0x5505262f,
   0xc5ba3bbe, 0xb2bd0b28, 0x2bb45a92, 0x5cb36a04, 0xc2d7ffa7, 0xb5d0cf31, 0x2cd99e8b, 0x5bdeae1d,
   0x9b64c2b0, 0xec63f226, 0x756aa39c, 0x026d930a, 0x9c0906a9, 0xeb0e363f, 0x72076785, 0x05005713,
   0x95bf4a82, 0xe2b87a14, 0x7bb12bae, 0x0cb61b38, 0x92d28e9b, 0xe5d5be0d, 0x7cdcefb7, 0x0bdbdf21,
   0x86d3d2d4, 0xf1d4e242, 0x68ddb3f8, 0x1fda836e, 0x81be16cd, 0xf6b9265b, 0x6fb077e1, 0x18b74777,
   0x88085ae6, 0xff0f6a70, 0x66063bca, 0x11010b5c, 0x8f659eff, 0xf862ae69, 0x616bffd3, 0x166ccf45,
   0xa00ae278, 0xd70dd2ee, 0x4e048354, 0x3903b3c2, 0xa7672661, 0xd06016f7, 0x4969474d, 0x3e6e77db,
   0xaed16a4a, 0xd9d65adc, 0x40df0b66, 0x37d83bf0, 0xa9bcae53, 0xdebb9ec5, 0x47b2cf7f, 0x30b5ffe9,
   0xbdbdf21c, 0xcabac28a, 0x53b39330, 0x24b4a3a6, 0xbad03605, 0xcdd70693, 0x54de5729, 0x23d967bf,
   0xb3667a2e, 0xc4614ab8, 0x5d681b02, 0x2a6f2b94, 0xb40bbe37, 0xc30c8ea1, 0x5a05df1b, 0x2d02ef8d]

/-- A turn of the loop of `tab_crc32`. -/
def crcStep (crc : UInt32) (byte : UInt8) : UInt32 :=
  crcTable.getD ((crc ^^^ byte.toUInt32) &&& 0xff).toNat 0 ^^^ (crc >>> 8)

/-- `tab_crc32`. -/
def tabCrc32 (buf : Bytes) : UInt32 :=
  buf.foldl crcStep (0xffffffff ^^^ 0xffffffff) ^^^ 0xffffffff

/-! ### Sending -/

/-- `GT_SYNC_HEAD0` to `GT_SYNC_HEAD3`. -/
def syncHead : Bytes := [0x40, 0x55, 0xaa, 0x55]

/-- `GT_PKT_TAIL`. -/
def pktTail : Nat := 0x66886623

/-- `GT_COM_VERSION`. -/
def gtComVersion : Nat := 2

/-- `GT_CMD_NO_AUTH`. -/
def gtCmdNoAuth : UInt8 := 0

/-- `MSG_AUTH_SSL`. -/
def msgAuthSsl : UInt8 := 0x60

/-- `sizeof(struct gt_pkt_head)`, and the place of the message. -/
def headSize : Nat := 16

/-- `EBUF_ADDON`. -/
def ebufAddon : Nat := 512

/-- The errors of sending, negated. -/
inductive SendErr where
  | einval
  | eio
deriving DecidableEq, Repr

/-- `put_unaligned`. -/
def putUnaligned (value place : Nat) (memory : Memory) : Memory :=
  store memory place (wordBytes value)

/-- `get_unaligned`. -/
def getUnaligned (memory : Memory) (place : Nat) : Nat := wordOf (load memory place 4)

/-- The stores of the header in `gt_cmd_pkt_send`, in their order. -/
def fillHead (addon : Nat) (msgType encryptType : UInt8) (s : Memory) : Memory :=
  let s := putUnaligned addon 4 s
  let s := store s 4 [UInt8.ofNat addon, UInt8.ofNat (addon / 2 ^ 8)]
  let s := store s 0 syncHead
  let s := putUnaligned gtComVersion 6 s
  let s := putUnaligned msgType.toNat 7 s
  let s := putUnaligned encryptType.toNat 8 s
  let s := putUnaligned 0 9 s
  putUnaligned 0 10 s

/-- The header, the checksum and the end mark around a message of `sendMsglen` bytes. -/
def fillPacket (sendMsglen : Nat) (msgType encryptType : UInt8) (s : Memory) : Memory :=
  -- The length is kept in sixteen bits.
  let addon := (sendMsglen + headSize - 4 - 2 + 4) % 2 ^ 16
  let s := fillHead addon msgType encryptType s
  let s := store s 12 (wordBytes (getUnaligned s 4 ^^^ getUnaligned s 8))
  let crcval := tabCrc32 (load s headSize sendMsglen)
  let s := store s (headSize + sendMsglen) (wordBytes crcval.toNat)
  putUnaligned pktTail (headSize + sendMsglen + 4) s

/-- The bytes that fill a message up to whole words. -/
def padding (msgLen : Nat) : Nat := if msgLen % 4 ≠ 0 then 4 - msgLen % 4 else 0

/-- `gt_cmd_pkt_send`: the bytes it writes to the connection. The message is in the buffer behind
the header. `envPack` stands for the envelope, with the room there is for it. -/
def gtCmdPktSend (envPack : UInt8 → Bytes → Nat → Except Int Bytes) (send : Memory)
    (msgLen : Nat) (msgType encryptType : UInt8) : Except SendErr Bytes :=
  let send := store send (headSize + msgLen) (List.replicate (padding msgLen) 0)
  let sendMsglen := msgLen + padding msgLen
  if msgType = gtCmdNoAuth then
    .ok (load (fillPacket sendMsglen msgType encryptType send) 0 (headSize + sendMsglen + 8))
  else if msgType = msgAuthSsl then
    match envPack encryptType (load send headSize sendMsglen)
      (ebufAddon + sendMsglen - headSize) with
    | .error _ => .error .eio
    | .ok ebuf =>
      let s := store send headSize ebuf
      .ok (load (fillPacket ebuf.length msgType encryptType s) 0 (headSize + ebuf.length + 8))
  else .error .einval

/-! ### Frames -/

/-- The word with the length, the version and the type. -/
def lengthWord (count : Nat) (msgType : UInt8) : Bytes :=
  [UInt8.ofNat ((count + 14) % 2 ^ 16), UInt8.ofNat ((count + 14) % 2 ^ 16 / 2 ^ 8), 2, msgType]

/-- The header of a message of `count` bytes. -/
def header (count : Nat) (msgType encryptType : UInt8) : Bytes :=
  syncHead ++ (lengthWord count msgType ++ ([encryptType, 0, 0, 0] ++
    wordBytes (wordOf (lengthWord count msgType) ^^^ wordOf [encryptType, 0, 0, 0])))

/-- A message with all that goes with it. -/
def frame (payload : Bytes) (msgType encryptType : UInt8) : Bytes :=
  header payload.length msgType encryptType ++
    (payload ++ (wordBytes (tabCrc32 payload).toNat ++ wordBytes pktTail))

/-- A message filled up with zeros. -/
def padded (message : Bytes) : Bytes := message ++ List.replicate (padding message.length) 0

@[simp]
theorem header_length (count : Nat) (msgType encryptType : UInt8) :
    (header count msgType encryptType).length = headSize := rfl

theorem frame_length (payload : Bytes) (msgType encryptType : UInt8) :
    (frame payload msgType encryptType).length = payload.length + 24 := by
  simp only [frame, List.length_append, header_length, wordBytes_length, headSize]
  omega

theorem padded_length (message : Bytes) :
    (padded message).length = message.length + padding message.length := by
  rw [padded, List.length_append, List.length_replicate]

section Stores

variable (s : Memory) (msgType encryptType : UInt8)

/-- The stores of the header write nothing behind it. -/
theorem fillHead_behind {addon address : Nat} (behind : headSize ≤ address) :
    fillHead addon msgType encryptType s address = s address := by
  have far : 14 ≤ address := Nat.le_trans (by decide) behind
  have outside : ∀ (memory : Memory) (place : Nat) (bytes : Bytes), place + bytes.length ≤ 14 →
      store memory place bytes address = memory address := fun memory place bytes near =>
    store_outside (.inr (Nat.le_trans near far))
  unfold fillHead putUnaligned
  rw [outside _ 10, outside _ 9, outside _ 8, outside _ 7, outside _ 6, outside _ 0, outside _ 4,
    outside _ 4]
  all_goals exact Nat.le_of_ble_eq_true rfl

/-- What the overlapping stores leave behind. -/
theorem load_fillHead (addon : Nat) :
    load (fillHead addon msgType encryptType s) 0 12 =
      syncHead ++ ([UInt8.ofNat addon, UInt8.ofNat (addon / 2 ^ 8), 2, msgType] ++
        [encryptType, 0, 0, 0]) := by
  have bytes : load (fillHead addon msgType encryptType s) 0 12 =
      [0x40, 0x55, 0xaa, 0x55, UInt8.ofNat addon, UInt8.ofNat (addon / 2 ^ 8), 2,
        UInt8.ofNat msgType.toNat, UInt8.ofNat encryptType.toNat, 0, 0, 0] := rfl
  rw [bytes, UInt8.ofNat_toNat, UInt8.ofNat_toNat]
  rfl

theorem getUnaligned_fillHead (addon : Nat) :
    getUnaligned (fillHead addon msgType encryptType s) 4 =
        wordOf [UInt8.ofNat addon, UInt8.ofNat (addon / 2 ^ 8), 2, msgType] ∧
      getUnaligned (fillHead addon msgType encryptType s) 8 = wordOf [encryptType, 0, 0, 0] := by
  have first : load (fillHead addon msgType encryptType s) 4 4 =
      [UInt8.ofNat addon, UInt8.ofNat (addon / 2 ^ 8), 2, UInt8.ofNat msgType.toNat] := rfl
  have second : load (fillHead addon msgType encryptType s) 8 4 =
      [UInt8.ofNat encryptType.toNat, 0, 0, 0] := rfl
  rw [getUnaligned, getUnaligned, first, second, UInt8.ofNat_toNat, UInt8.ofNat_toNat]
  exact ⟨rfl, rfl⟩

/-- A buffer with a word at the end of its header and two words behind its message. -/
theorem load_words (count xor crc tail : Nat) :
    load (store (store (store s 12 (wordBytes xor)) (16 + count) (wordBytes crc))
        (16 + count + 4) (wordBytes tail)) 0 (16 + count + 8) =
      load s 0 12 ++ (wordBytes xor ++ (load s 16 count ++ (wordBytes crc ++ wordBytes tail))) := by
  have word : ∀ (memory : Memory) (place value : Nat),
      load (store memory place (wordBytes value)) place 4 = wordBytes value :=
    fun memory place value => load_store memory place (wordBytes value)
  have apart : ∀ (memory : Memory) (start value place total : Nat),
      start + 4 ≤ place ∨ place + total ≤ start →
        load (store memory start (wordBytes value)) place total = load memory place total :=
    fun memory start value place total outside => load_store_apart (wordBytes value) outside
  have parts : 16 + count + 8 = 12 + (4 + (count + (4 + 4))) := by omega
  rw [parts, load_add, load_add, load_add, load_add]
  rw [apart _ _ _ 0 12 (by omega), apart _ _ _ 0 12 (by omega), apart _ _ _ 0 12 (by omega),
    apart _ _ _ (0 + 12) 4 (by omega), apart _ _ _ (0 + 12) 4 (by omega), Nat.zero_add, word,
    apart _ _ _ (12 + 4) count (by omega), apart _ _ _ (12 + 4) count (by omega),
    apart _ _ _ (12 + 4) count (by omega), apart _ _ _ (12 + 4 + count) 4 (by omega), word, word]

/-- A message in a buffer gets its frame. -/
theorem load_fillPacket {payload : Bytes} (held : load s headSize payload.length = payload) :
    load (fillPacket payload.length msgType encryptType s) 0 (headSize + payload.length + 8) =
      frame payload msgType encryptType := by
  have kept : ∀ addon, load (fillHead addon msgType encryptType s) 16 payload.length = payload :=
    fun addon => (load_congr fun offset _ =>
      fillHead_behind s msgType encryptType (Nat.le_add_right _ _)).trans held
  have apart : ∀ (memory : Memory) (value : Nat),
      load (store memory 12 (wordBytes value)) 16 payload.length = load memory 16 payload.length :=
    fun memory value => load_store_apart (wordBytes value) (.inl (Nat.le_refl 16))
  obtain ⟨first, second⟩ := getUnaligned_fillHead s msgType encryptType
    ((payload.length + 14) % 2 ^ 16)
  have addon : payload.length + 16 - 4 - 2 + 4 = payload.length + 14 := by omega
  simp only [fillPacket, putUnaligned, headSize, addon, first, second, apart, kept, load_words,
    load_fillHead]
  simp only [frame, header, lengthWord, List.append_assoc]

end Stores

/-- The message in the buffer of its sender, filled up. -/
theorem load_padded {send : Memory} {message : Bytes}
    (held : load send headSize message.length = message) :
    load (store send (headSize + message.length) (List.replicate (padding message.length) 0))
      headSize (message.length + padding message.length) = padded message := by
  rw [load_add, load_store_apart _ (.inr (Nat.le_refl _)), held, padded]
  congr 1
  have filled := load_store send (headSize + message.length)
    (List.replicate (padding message.length) 0)
  rwa [List.length_replicate] at filled

/-- What is sent for a message that is not encrypted. -/
theorem gtCmdPktSend_noAuth {envPack : UInt8 → Bytes → Nat → Except Int Bytes} {send : Memory}
    {message : Bytes} (encryptType : UInt8)
    (held : load send headSize message.length = message) :
    gtCmdPktSend envPack send message.length gtCmdNoAuth encryptType =
      .ok (frame (padded message) gtCmdNoAuth encryptType) := by
  have kept : load (store send (headSize + message.length)
      (List.replicate (padding message.length) 0)) headSize (padded message).length =
      padded message := by
    rw [padded_length, load_padded held]
  rw [gtCmdPktSend, if_pos rfl, ← load_fillPacket _ gtCmdNoAuth encryptType kept, padded_length]

/-- What is sent for a message in an envelope. -/
theorem gtCmdPktSend_ssl {envPack : UInt8 → Bytes → Nat → Except Int Bytes} {send : Memory}
    {message : Bytes} (encryptType : UInt8)
    (held : load send headSize message.length = message) :
    gtCmdPktSend envPack send message.length msgAuthSsl encryptType =
      match envPack encryptType (padded message)
        (ebufAddon + (message.length + padding message.length) - headSize) with
      | .error _ => .error .eio
      | .ok envelope => .ok (frame envelope msgAuthSsl encryptType) := by
  rw [gtCmdPktSend, if_neg (by decide), if_pos rfl, load_padded held]
  cases envPack encryptType (padded message)
    (ebufAddon + (message.length + padding message.length) - headSize) with
  | error failed => rfl
  | ok envelope =>
    have kept := load_store (store send (headSize + message.length)
      (List.replicate (padding message.length) 0)) headSize envelope
    exact congrArg _ (load_fillPacket _ msgAuthSsl encryptType kept)

end ExmOnvif.GtComApi
