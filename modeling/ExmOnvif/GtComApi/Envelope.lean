/-
This file models the envelopes in which encrypted messages are sent, and proves when a
message comes back from its envelope.

An envelope is an initial vector, a key and a ciphertext, each with its length in front.
Sealing and opening are the business of a library of their own; it is known only that
opening undoes sealing and how long the key and the ciphertext can get. The packer
limits the length of the message, the unpacker that of the envelope, and each makes its
own guess at the room that is needed. A read or a write outside a buffer has no result.
-/

import Mathlib.Algebra.Ring.Int.Defs
import ExmOnvif.Library.Bytes

namespace ExmOnvif.GtComApi.Envelope

open Library

/-! ### Sealing -/

/-- The ciphers. -/
inductive Cipher where
  | encNull
  | desEdeCbc
  | desEde3Cbc
  | ideaCbc
  | rc2Cbc
  | bfCbc
  | cast5Cbc
  | rc5Cbc
deriving DecidableEq, Repr

/-- `get_cipher`. -/
def getCipher (type : Int) : Cipher :=
  if type = 1 then .desEdeCbc
  else if type = 2 then .desEde3Cbc
  else if type = 3 then .ideaCbc
  else if type = 4 then .rc2Cbc
  else if type = 5 then .bfCbc
  else if type = 6 then .cast5Cbc
  else if type = 7 then .rc5Cbc
  else .encNull

/-- The error codes. A buffer that is too small comes with the size that is asked for. -/
inductive EnvErr where
  | bufInvalid (needed : Int)
  | certInvalid
  | keyInvalid
  | memory
  | dataExceed
  | envInvalid
  | encryptFailed
  | decryptFailed
deriving DecidableEq, Repr

/-- `IV_SIZE`. -/
def ivSize : Nat := 8

/-- `MAX_DATA_LEN`. -/
def maxDataLen : Nat := 32000

/-- What `do_seal` gives. -/
structure Sealed where
  iv : Bytes
  kbuf : Bytes
  encBuf : Bytes
  ivWhole : iv.length = ivSize

/-- The library for the ciphers, with the keys that are loaded. -/
structure Crypto where
  /-- `g_pub_key_size`. -/
  pubKeySize : Nat
  small : pubKeySize + 2 ^ 16 ≤ 2 ^ 31
  /-- `do_seal`. -/
  doSeal : Cipher → Bytes → Except EnvErr Sealed
  /-- `do_unseal`, of the ciphertext, the initial vector and the key. -/
  doUnseal : Cipher → Bytes → Bytes → Bytes → Except EnvErr Bytes

/-- Opening undoes sealing, and the key and the ciphertext have room. -/
structure Crypto.Lawful (crypto : Crypto) : Prop where
  opens : ∀ cipher pbuf sealed, crypto.doSeal cipher pbuf = .ok sealed →
    crypto.doUnseal cipher sealed.encBuf sealed.iv sealed.kbuf = .ok pbuf
  key : ∀ cipher pbuf sealed, crypto.doSeal cipher pbuf = .ok sealed →
    sealed.kbuf.length ≤ crypto.pubKeySize
  ciphertext : ∀ cipher pbuf sealed, crypto.doSeal cipher pbuf = .ok sealed →
    sealed.encBuf.length ≤ pbuf.length + 8

/-! ### Packing -/

variable (crypto : Crypto)

/-- `ENV_BUFFER_MIN`. -/
def envBufferMin (plen : Nat) : Nat := plen + crypto.pubKeySize + 2 * ivSize + 12

/-- A `memcpy` to the end of what has been written. -/
def append (size : Nat) (state : Memory × Nat) (bytes : Bytes) : Option (Memory × Nat) :=
  if state.2 + bytes.length ≤ size then
    some (store state.1 state.2 bytes, state.2 + bytes.length)
  else none

/-- The sections of an envelope, in their order. -/
def sections (sealed : Sealed) : List Bytes :=
  [wordBytes ivSize, sealed.iv, wordBytes sealed.kbuf.length, sealed.kbuf,
    wordBytes sealed.encBuf.length, sealed.encBuf]

/-- `env_pack`: the buffer and the length of the envelope. -/
def envPack (etype : Int) (pbuf : Bytes) (ebuf : Memory) (elen : Nat) :
    Option (Except EnvErr (Memory × Nat)) :=
  if maxDataLen < pbuf.length then some (.error .dataExceed)
  else if elen < envBufferMin crypto pbuf.length then
    some (.error (.bufInvalid (envBufferMin crypto pbuf.length)))
  else
    match crypto.doSeal (getCipher etype) pbuf with
    | .error error => some (.error error)
    | .ok sealed =>
      ((sections sealed).foldlM (append elen) (store ebuf 0 (List.replicate elen 0), 0)).map .ok

/-! ### Unpacking -/

/-- A value as an `unsigned int`. -/
def unsigned (value : Int) : Int := value % 2 ^ 32

/-- A value as an `int`. -/
def signed (value : Int) : Int := (value + 2 ^ 31) % 2 ^ 32 - 2 ^ 31

/-- A read of so many bytes of the envelope from a place on. -/
def readAt (ebuf : Bytes) (place : Int) (count : Nat) : Option Bytes :=
  if 0 ≤ place ∧ place + count ≤ ebuf.length then some ((ebuf.drop place.toNat).take count)
  else none

/-- The call of `do_unseal`, which puts a zero behind the message. -/
def callUnseal (etype : Int) (ebuf iv : Bytes) (plen klen : Nat) (encBuf : Int) (encLen : Nat) :
    Option (Except EnvErr Bytes) :=
  (readAt ebuf 16 klen).bind fun kbuf =>
    (readAt ebuf encBuf encLen).bind fun encBuf =>
      match crypto.doUnseal (getCipher etype) encBuf iv kbuf with
      | .error error => some (.error error)
      | .ok pbuf => if pbuf.length + 1 ≤ plen then some (.ok pbuf) else none

/-- `env_unpack` from the third section on. -/
def unpackCiphertext (etype : Int) (ebuf iv : Bytes) (plen klen : Nat) :
    Option (Except EnvErr Bytes) :=
  let rlen := signed (16 + klen)
  (readAt ebuf rlen 4).bind fun word =>
    if unsigned (ebuf.length - rlen) < wordOf word then some (.error .envInvalid)
    else if signed (rlen + 4 + wordOf word) ≠ ebuf.length then some (.error .envInvalid)
    else callUnseal crypto etype ebuf iv plen klen (rlen + 4) (wordOf word)

/-- `env_unpack`: the message. -/
def envUnpack (etype : Int) (ebuf : Bytes) (plen : Nat) : Option (Except EnvErr Bytes) :=
  let elen : Int := ebuf.length
  if maxDataLen < elen then some (.error .dataExceed)
  else if plen < elen - crypto.pubKeySize ∨ elen < 1 then
    some (.error (.bufInvalid (elen - crypto.pubKeySize)))
  else
    (readAt ebuf 0 4).bind fun word =>
      if wordOf word ≠ ivSize then some (.error .envInvalid)
      else
        (readAt ebuf 4 ivSize).bind fun iv =>
          (readAt ebuf 12 4).bind fun word =>
            if unsigned (elen - 12) < wordOf word then some (.error .envInvalid)
            else unpackCiphertext crypto etype ebuf iv plen (wordOf word)

/-! ### The round trip -/

/-- The message is packed inside the buffer, and if that succeeds it comes back from the envelope
in a buffer of `plen` bytes. -/
def RoundTrip (etype : Int) (pbuf : Bytes) (ebuf : Memory) (elen plen : Nat) : Prop :=
  ∃ result, envPack crypto etype pbuf ebuf elen = some result ∧
    ∀ after written, result = .ok (after, written) →
      written ≤ elen ∧ envUnpack crypto etype (load after 0 written) plen = some (.ok pbuf)

/-- The length of the envelope of a message. -/
def Sealed.envelopeLength (sealed : Sealed) : Nat :=
  20 + sealed.kbuf.length + sealed.encBuf.length

section Sections

variable {crypto}

theorem sections_length (sealed : Sealed) :
    (sections sealed).flatten.length = sealed.envelopeLength := by
  have iv := sealed.ivWhole
  simp only [sections, Sealed.envelopeLength, List.flatten_cons, List.flatten_nil,
    List.length_append, wordBytes_length, List.length_nil, iv, ivSize]
  omega

/-- What is appended stands behind what was there. -/
theorem append_all {size : Nat} {parts : List Bytes} {memory : Memory} {written : Nat}
    (fits : written + parts.flatten.length ≤ size) :
    ∃ after, parts.foldlM (append size) (memory, written) =
        some (after, written + parts.flatten.length) ∧
      load after 0 (written + parts.flatten.length) = load memory 0 written ++ parts.flatten := by
  induction parts generalizing memory written with
  | nil => exact ⟨memory, rfl, (List.append_nil _).symm⟩
  | cons part parts inductionHypothesis =>
    rw [List.flatten_cons, List.length_append] at fits
    have room : written + part.length ≤ size := by omega
    obtain ⟨after, rest, loaded⟩ :=
      @inductionHypothesis (store memory written part) (written + part.length) (by omega)
    refine ⟨after, ?_, ?_⟩
    · rw [List.foldlM_cons, append, if_pos room]
      rw [List.flatten_cons, List.length_append, ← Nat.add_assoc]
      exact rest
    · rw [List.flatten_cons, List.length_append, ← Nat.add_assoc, loaded, load_add,
        load_store_apart _ (.inr (by rw [Nat.zero_add])), Nat.zero_add, load_store,
        List.append_assoc]

/-- A section is read at its place. -/
theorem readAt_section {parts front back : List Bytes} {part : Bytes} {place : Int} {count : Nat}
    (split : parts = front ++ part :: back) (here : place = front.flatten.length)
    (whole : part.length = count) : readAt parts.flatten place count = some part := by
  subst split here whole
  rw [List.flatten_append, List.flatten_cons]
  have inside : (0 : Int) ≤ front.flatten.length ∧ (front.flatten.length : Int) + part.length ≤
      (front.flatten ++ (part ++ back.flatten)).length := by
    rw [List.length_append, List.length_append]
    omega
  rw [readAt, if_pos inside, Int.toNat_natCast, List.drop_left, List.take_left]

theorem signed_eq {value : Int} (low : 0 ≤ value) (high : value < 2 ^ 31) :
    signed value = value := by
  unfold signed
  omega

theorem unsigned_eq {value : Int} (low : 0 ≤ value) (high : value < 2 ^ 31) :
    unsigned value = value := by
  unfold unsigned
  omega

/-- The lengths inside an envelope pass the checks on them. -/
theorem lengths_pass {klen encLen : Nat} (short : 20 + klen + encLen ≤ maxDataLen) :
    signed (16 + klen) = 16 + klen ∧ ¬unsigned (20 + klen + encLen - 12) < klen ∧
      ¬unsigned (20 + klen + encLen - (16 + klen)) < encLen ∧
        signed (16 + klen + 4 + encLen) = 20 + klen + encLen := by
  unfold maxDataLen at short
  refine ⟨signed_eq (by omega) (by omega), ?_, ?_, ?_⟩
  · rw [unsigned_eq (by omega) (by omega)]
    omega
  · rw [unsigned_eq (by omega) (by omega)]
    omega
  · rw [signed_eq (by omega) (by omega)]
    omega

section Reading

variable {etype : Int} {sealed : Sealed} {pbuf : Bytes} {plen : Nat}

theorem sections_length_int (sealed : Sealed) :
    (((sections sealed).flatten.length : Nat) : Int) =
      20 + sealed.kbuf.length + sealed.encBuf.length := by
  rw [sections_length, Sealed.envelopeLength]
  push_cast
  rfl

/-- The key and the ciphertext are read at their places. -/
theorem callUnseal_sections
    (opens : crypto.doUnseal (getCipher etype) sealed.encBuf sealed.iv sealed.kbuf = .ok pbuf)
    (room : pbuf.length + 1 ≤ plen) :
    callUnseal crypto etype (sections sealed).flatten sealed.iv plen sealed.kbuf.length
      (16 + sealed.kbuf.length + 4) sealed.encBuf.length = some (.ok pbuf) := by
  have iv := sealed.ivWhole
  have readKey : readAt (sections sealed).flatten 16 sealed.kbuf.length = some sealed.kbuf :=
    @readAt_section _ [wordBytes ivSize, sealed.iv, wordBytes sealed.kbuf.length] _ _ _ _ rfl
      (by simp [iv, ivSize]) rfl
  have readCiphertext : readAt (sections sealed).flatten (16 + sealed.kbuf.length + 4)
      sealed.encBuf.length = some sealed.encBuf :=
    @readAt_section _ [wordBytes ivSize, sealed.iv, wordBytes sealed.kbuf.length, sealed.kbuf,
      wordBytes sealed.encBuf.length] _ _ _ _ rfl (by simp [iv, ivSize]; omega) rfl
  rw [callUnseal, readKey, Option.bind_some, readCiphertext, Option.bind_some, opens]
  exact if_pos room

theorem unpackCiphertext_sections
    (opens : crypto.doUnseal (getCipher etype) sealed.encBuf sealed.iv sealed.kbuf = .ok pbuf)
    (short : sealed.envelopeLength ≤ maxDataLen) (room : pbuf.length + 1 ≤ plen) :
    unpackCiphertext crypto etype (sections sealed).flatten sealed.iv plen sealed.kbuf.length =
      some (.ok pbuf) := by
  have iv := sealed.ivWhole
  obtain ⟨place, -, cipherInside, whole⟩ := lengths_pass short
  have readThird : readAt (sections sealed).flatten (16 + sealed.kbuf.length) 4 =
      some (wordBytes sealed.encBuf.length) :=
    @readAt_section _ [wordBytes ivSize, sealed.iv, wordBytes sealed.kbuf.length, sealed.kbuf]
      _ _ _ _ rfl (by simp [iv, ivSize]; omega) (wordBytes_length _)
  have cipherValue : wordOf (wordBytes sealed.encBuf.length) = sealed.encBuf.length := by
    refine wordOf_wordBytes ?_
    unfold Sealed.envelopeLength maxDataLen at short
    omega
  rw [unpackCiphertext, place, readThird, Option.bind_some, cipherValue, sections_length_int,
    if_neg cipherInside, whole, if_neg (not_not.mpr rfl)]
  exact callUnseal_sections opens room

/-- An envelope that is within the limits is opened. -/
theorem envUnpack_sections
    (opens : crypto.doUnseal (getCipher etype) sealed.encBuf sealed.iv sealed.kbuf = .ok pbuf)
    (short : sealed.envelopeLength ≤ maxDataLen)
    (roomy : sealed.envelopeLength ≤ plen + crypto.pubKeySize) (room : pbuf.length + 1 ≤ plen) :
    envUnpack crypto etype (sections sealed).flatten plen = some (.ok pbuf) := by
  have iv := sealed.ivWhole
  obtain ⟨-, keyInside, -, -⟩ := lengths_pass short
  have notLong : ¬(maxDataLen : Int) < 20 + sealed.kbuf.length + sealed.encBuf.length := by
    exact_mod_cast Nat.not_lt.mpr short
  have notWide : ¬((plen : Int) < 20 + sealed.kbuf.length + sealed.encBuf.length -
      crypto.pubKeySize ∨ (20 : Int) + sealed.kbuf.length + sealed.encBuf.length < 1) := by
    unfold Sealed.envelopeLength at roomy
    omega
  have keyValue : wordOf (wordBytes sealed.kbuf.length) = sealed.kbuf.length := by
    refine wordOf_wordBytes ?_
    unfold Sealed.envelopeLength maxDataLen at short
    omega
  have readFirst : readAt (sections sealed).flatten 0 4 = some (wordBytes ivSize) :=
    @readAt_section _ [] _ _ _ _ rfl rfl (wordBytes_length _)
  have readIv : readAt (sections sealed).flatten 4 ivSize = some sealed.iv :=
    @readAt_section _ [wordBytes ivSize] _ _ _ _ rfl rfl iv
  have readSecond : readAt (sections sealed).flatten 12 4 = some (wordBytes sealed.kbuf.length) :=
    @readAt_section _ [wordBytes ivSize, sealed.iv] _ _ _ _ rfl
      (by simp [iv, ivSize]) (wordBytes_length _)
  have ivValue : wordOf (wordBytes ivSize) = ivSize := wordOf_wordBytes (by decide)
  rw [envUnpack, sections_length_int, if_neg notLong, if_neg notWide, readFirst,
    Option.bind_some, ivValue, if_neg (not_not.mpr rfl), readIv, Option.bind_some, readSecond,
    Option.bind_some, keyValue, if_neg keyInside]
  exact unpackCiphertext_sections opens short room

end Reading

/-- A buffer without the room that the unpacker asks for is refused. -/
theorem envUnpack_narrow {etype : Int} {ebuf : Bytes} {plen : Nat}
    (short : ebuf.length ≤ maxDataLen)
    (narrow : ¬ebuf.length ≤ plen + crypto.pubKeySize) :
    envUnpack crypto etype ebuf plen =
      some (.error (.bufInvalid (ebuf.length - crypto.pubKeySize))) := by
  have notLong : ¬(maxDataLen : Int) < ebuf.length := by
    exact_mod_cast Nat.not_lt.mpr short
  have asked : (plen : Int) < ebuf.length - crypto.pubKeySize := by
    clear short notLong
    omega
  rw [envUnpack, if_neg notLong, if_pos (.inl asked)]

/-- What is packed is the sections of the envelope, inside the buffer. -/
theorem envPack_sections (lawful : crypto.Lawful) {etype : Int} {sealed : Sealed} {pbuf : Bytes}
    {elen : Nat} (ebuf : Memory) (short : pbuf.length ≤ maxDataLen)
    (accepted : envBufferMin crypto pbuf.length ≤ elen)
    (seals : crypto.doSeal (getCipher etype) pbuf = .ok sealed) :
    sealed.envelopeLength ≤ elen ∧
      ∃ after, envPack crypto etype pbuf ebuf elen = some (.ok (after, sealed.envelopeLength)) ∧
        load after 0 sealed.envelopeLength = (sections sealed).flatten := by
  have key := lawful.key _ _ _ seals
  have ciphertext := lawful.ciphertext _ _ _ seals
  have fits : sealed.envelopeLength ≤ elen := by
    unfold Sealed.envelopeLength
    unfold envBufferMin ivSize at accepted
    omega
  refine ⟨fits, ?_⟩
  obtain ⟨after, appended, loaded⟩ := @append_all elen (sections sealed)
    (store ebuf 0 (List.replicate elen 0)) 0 (by rw [sections_length]; omega)
  rw [sections_length, Nat.zero_add] at appended loaded
  refine ⟨after, ?_, loaded⟩
  rw [envPack, if_neg (Nat.not_lt.mpr short), if_neg (Nat.not_lt.mpr accepted), seals]
  simp only [appended, Option.map_some]

end Sections

/-- What is packed stays inside the buffer. From an envelope that is not longer than a message may
be, the message comes back if the buffer for it and the size of the key together hold the envelope,
and otherwise the unpacker asks for that room. -/
theorem envelope_round_trip (crypto : Crypto) (lawful : crypto.Lawful) (etype : Int)
    (pbuf : Bytes) (ebuf : Memory) (elen plen : Nat) (roomy : pbuf.length + 8 ≤ plen) :
    ∃ result, envPack crypto etype pbuf ebuf elen = some result ∧
      ∀ after written, result = .ok (after, written) → written ≤ elen ∧
        (written ≤ maxDataLen → envUnpack crypto etype (load after 0 written) plen =
          some (if written ≤ plen + crypto.pubKeySize then .ok pbuf
            else .error (.bufInvalid (written - crypto.pubKeySize)))) := by
  by_cases long : maxDataLen < pbuf.length
  · exact ⟨_, if_pos long, fun _ _ other => by cases other⟩
  by_cases narrow : elen < envBufferMin crypto pbuf.length
  · refine ⟨.error (.bufInvalid (envBufferMin crypto pbuf.length)), ?_, fun _ _ other => by
      cases other⟩
    rw [envPack, if_neg long, if_pos narrow]
  cases seals : crypto.doSeal (getCipher etype) pbuf with
  | error error =>
    refine ⟨.error error, ?_, fun _ _ other => by cases other⟩
    rw [envPack, if_neg long, if_neg narrow, seals]
  | ok sealed =>
    obtain ⟨fits, after, packed, loaded⟩ :=
      envPack_sections lawful ebuf (Nat.not_lt.mp long) (Nat.not_lt.mp narrow) seals
    refine ⟨_, packed, fun _ _ same => ?_⟩
    cases same
    refine ⟨fits, fun short => ?_⟩
    by_cases wide : sealed.envelopeLength ≤ plen + crypto.pubKeySize
    · rw [if_pos wide, loaded]
      exact envUnpack_sections (lawful.opens _ _ _ seals) short wide (by omega)
    · have length : (load after 0 sealed.envelopeLength).length = sealed.envelopeLength :=
        load_length _ _ _
      rw [if_neg wide]
      have refused := @envUnpack_narrow crypto etype (load after 0 sealed.envelopeLength) plen
        (by rw [length]; exact short) (by rw [length]; exact wide)
      rwa [length] at refused

/-! ### A library that only pads -/

/-- The padding up to whole blocks of eight bytes. -/
def pad (pbuf : Bytes) : Bytes :=
  pbuf ++ List.replicate (8 - pbuf.length % 8) (UInt8.ofNat (8 - pbuf.length % 8))

/-- The last byte says how long the padding is. -/
def unpad (encBuf : Bytes) : Bytes := encBuf.take (encBuf.length - (encBuf.getLastD 0).toNat)

theorem pad_length (pbuf : Bytes) : (pad pbuf).length = pbuf.length + (8 - pbuf.length % 8) := by
  rw [pad, List.length_append, List.length_replicate]

theorem unpad_pad (pbuf : Bytes) : unpad (pad pbuf) = pbuf := by
  have last : ((pad pbuf).getLastD 0).toNat = 8 - pbuf.length % 8 := by
    obtain ⟨count, same⟩ : ∃ count, 8 - pbuf.length % 8 = count + 1 :=
      ⟨7 - pbuf.length % 8, by omega⟩
    have small : count + 1 < 256 := by omega
    rw [pad, same, List.replicate_succ', ← List.append_assoc, List.getLastD_concat,
      UInt8.toNat_ofNat', Nat.mod_eq_of_lt small]
  rw [unpad, last, pad_length, Nat.add_sub_cancel, pad, List.take_left]

/-- The lengths of the ciphers and of a key of 1024 bits, with bytes that stay as they are. -/
def padding : Crypto where
  pubKeySize := 128
  small := by decide
  doSeal cipher pbuf :=
    .ok ⟨List.replicate 8 0, List.replicate 128 7,
      if cipher = .encNull then pbuf else pad pbuf, List.length_replicate⟩
  doUnseal cipher encBuf _ _ := .ok (if cipher = .encNull then encBuf else unpad encBuf)

theorem padding_lawful : padding.Lawful where
  opens cipher pbuf sealed seals := by
    cases seals
    by_cases null : cipher = .encNull
    · simp only [padding, if_pos null]
    · simp only [padding, if_neg null, unpad_pad]
  key cipher pbuf sealed seals := by
    cases seals
    exact Nat.le_of_eq List.length_replicate
  ciphertext cipher pbuf sealed seals := by
    cases seals
    by_cases null : cipher = .encNull
    · simp only [if_pos null]
      omega
    · simp only [if_neg null, pad_length]
      omega

theorem padding_envelopeLength {cipher : Cipher} {pbuf : Bytes} {sealed : Sealed}
    (block : cipher ≠ .encNull) (seals : padding.doSeal cipher pbuf = .ok sealed) :
    sealed.envelopeLength = 148 + (pbuf.length + (8 - pbuf.length % 8)) := by
  cases seals
  simp only [Sealed.envelopeLength, if_neg block, pad_length, List.length_replicate]

/-- The envelope of one byte under the triple cipher has 156 bytes, so that 28 bytes are enough for
the message. -/
theorem envelope_round_trip_one :
    ∃ result, envPack padding 2 [1] (fun _ => 0) 157 = some result ∧
      ∀ after written, result = .ok (after, written) → written ≤ 157 ∧
        (written ≤ maxDataLen → envUnpack padding 2 (load after 0 written) 28 =
          some (if written ≤ 28 + 128 then .ok [1]
            else .error (.bufInvalid (written - (128 : Nat))))) :=
  envelope_round_trip padding padding_lawful 2 [1] (fun _ => 0) 157 28 (by decide)

/-- A buffer of the message and a whole block is refused. -/
theorem message_stays_packed :
    ¬∀ (crypto : Crypto), crypto.Lawful → ∀ (etype : Int) (pbuf : Bytes) (ebuf : Memory)
      (elen plen : Nat), 1 ≤ pbuf.length → pbuf.length ≤ maxDataLen →
        envBufferMin crypto pbuf.length ≤ elen → pbuf.length + 8 ≤ plen →
          RoundTrip crypto etype pbuf ebuf elen plen := by
  intro holds
  obtain ⟨result, same, back⟩ := holds padding padding_lawful 2 [1] (fun _ => 0) 157 9 (by decide)
    (by decide) (by decide) (by decide)
  obtain ⟨fits, after, packed, loaded⟩ := @envPack_sections padding padding_lawful 2 _ [1] 157
    (fun _ => 0) (by decide) (by decide) rfl
  rw [packed] at same
  cases same
  obtain ⟨-, opened⟩ := back after _ rfl
  have length := load_length after 0 156
  have refused := @envUnpack_narrow padding 2 (load after 0 156) 9 (by rw [length]; decide)
    (by rw [length]; decide)
  rw [padding_envelopeLength (by decide) rfl] at opened
  cases refused.symm.trans opened

end ExmOnvif.GtComApi.Envelope
