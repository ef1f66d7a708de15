/-
This file proves on which strings of bytes the unpacker of envelopes stays inside the
string and hands on nothing but an envelope.

A string that comes from the network is read section by section, and each length is
compared with what is left of the string at the place of the length itself. The four
bytes of the length are not counted, so that the next read may begin at the end of the
string or up to four bytes behind it. Nothing at all is compared before the first length
and the initial vector are read. What is handed on is an envelope in every case, for the
end of the last section is compared with the end of the string.
-/

import ExmOnvif.GtComApi.Envelope

namespace ExmOnvif.GtComApi.Envelope

open Library

/-! ### What is handed on -/

/-- `env_unpack` from the third section on, up to the call of `do_unseal`. -/
def unsealCiphertext (ebuf iv : Bytes) (klen : Nat) :
    Option (Except EnvErr (Bytes × Bytes × Bytes)) :=
  let rlen := signed (16 + klen)
  (readAt ebuf rlen 4).bind fun word =>
    if unsigned (ebuf.length - rlen) < wordOf word then some (.error .envInvalid)
    else if signed (rlen + 4 + wordOf word) ≠ ebuf.length then some (.error .envInvalid)
    else
      (readAt ebuf 16 klen).bind fun kbuf =>
        (readAt ebuf (rlen + 4) (wordOf word)).map fun encBuf => .ok (iv, kbuf, encBuf)

/-- `env_unpack` up to the call of `do_unseal`: the initial vector, the key and the ciphertext that
it is called with. -/
def unsealInput (crypto : Crypto) (ebuf : Bytes) (plen : Nat) :
    Option (Except EnvErr (Bytes × Bytes × Bytes)) :=
  let elen : Int := ebuf.length
  if maxDataLen < elen then some (.error .dataExceed)
  else if plen < elen - crypto.pubKeySize ∨ elen < 1 then
    some (.error (.bufInvalid (elen - crypto.pubKeySize)))
  else
    (readAt ebuf 0 4).bind fun word =>
      if wordOf word ≠ ivSize then some (.error .envInvalid)
      else
        (readAt ebuf 4 ivSize).bind fun iv =>
          (readAt ebuf 12 4).bind fun word =>
            if unsigned (elen - 12) < wordOf word then some (.error .envInvalid)
            else unsealCiphertext ebuf iv (wordOf word)

/-- `do_unseal` with what is handed on. -/
def handOn (crypto : Crypto) (etype : Int) (plen : Nat) :
    Except EnvErr (Bytes × Bytes × Bytes) → Option (Except EnvErr Bytes)
  | .error error => some (.error error)
  | .ok (iv, kbuf, encBuf) =>
    match crypto.doUnseal (getCipher etype) encBuf iv kbuf with
    | .error error => some (.error error)
    | .ok pbuf => if pbuf.length + 1 ≤ plen then some (.ok pbuf) else none

section Calls

variable {crypto : Crypto} {etype : Int} {ebuf iv : Bytes} {plen klen : Nat}

theorem unpackCiphertext_eq :
    unpackCiphertext crypto etype ebuf iv plen klen =
      (unsealCiphertext ebuf iv klen).bind (handOn crypto etype plen) := by
  unfold unpackCiphertext unsealCiphertext callUnseal
  simp only
  cases readAt ebuf (signed (16 + klen)) 4 with
  | none => rfl
  | some word =>
    rw [Option.bind_some, Option.bind_some]
    by_cases long : unsigned (ebuf.length - signed (16 + klen)) < wordOf word
    · rw [if_pos long, if_pos long]
      rfl
    · rw [if_neg long, if_neg long]
      by_cases other : signed (signed (16 + klen) + 4 + wordOf word) ≠ ebuf.length
      · rw [if_pos other, if_pos other]
        rfl
      · rw [if_neg other, if_neg other]
        cases readAt ebuf 16 klen with
        | none => rfl
        | some kbuf =>
          cases readAt ebuf (signed (16 + klen) + 4) (wordOf word) with
          | none => rfl
          | some encBuf => rfl

/-- The message is what `do_unseal` makes of what is handed on to it. -/
theorem envUnpack_eq :
    envUnpack crypto etype ebuf plen =
      (unsealInput crypto ebuf plen).bind (handOn crypto etype plen) := by
  unfold envUnpack unsealInput
  simp only
  by_cases long : (maxDataLen : Int) < ebuf.length
  · rw [if_pos long, if_pos long]
    rfl
  · rw [if_neg long, if_neg long]
    by_cases narrow : (plen : Int) < ebuf.length - crypto.pubKeySize ∨ (ebuf.length : Int) < 1
    · rw [if_pos narrow, if_pos narrow]
      rfl
    · rw [if_neg narrow, if_neg narrow]
      cases readAt ebuf 0 4 with
      | none => rfl
      | some first =>
        rw [Option.bind_some, Option.bind_some]
        by_cases other : wordOf first ≠ ivSize
        · rw [if_pos other, if_pos other]
          rfl
        · rw [if_neg other, if_neg other]
          cases readAt ebuf 4 ivSize with
          | none => rfl
          | some iv =>
            cases readAt ebuf 12 4 with
            | none => rfl
            | some second =>
              rw [Option.bind_some, Option.bind_some, Option.bind_some, Option.bind_some]
              by_cases far : unsigned ((ebuf.length : Int) - 12) < wordOf second
              · rw [if_pos far, if_pos far]
                rfl
              · rw [if_neg far, if_neg far]
                exact unpackCiphertext_eq

end Calls

/-! ### Staying inside -/

/-- The string is an envelope of these parts. -/
def IsEnvelope (ebuf : Bytes) (parts : Bytes × Bytes × Bytes) : Prop :=
  ∃ sealed_ : Sealed, (sections sealed_).flatten = ebuf ∧
    parts = (sealed_.iv, sealed_.kbuf, sealed_.encBuf)

/-- Only the string is read, only an envelope is handed on, and what is none is rejected. -/
structure StaysInside (crypto : Crypto) (ebuf : Bytes) (plen : Nat) : Prop where
  inside : ∃ result, unsealInput crypto ebuf plen = some result
  exact : ∀ parts, unsealInput crypto ebuf plen = some (.ok parts) → IsEnvelope ebuf parts
  rejected : (¬∃ parts, IsEnvelope ebuf parts) →
    unsealInput crypto ebuf plen = some (.error .envInvalid)

/-- A part of the string. -/
def slice (ebuf : Bytes) (place count : Nat) : Bytes := (ebuf.drop place).take count

/-- The sections that the lengths announce are in the string, with the length behind each. -/
def Guarded (ebuf : Bytes) : Prop :=
  4 ≤ ebuf.length ∧
    (wordOf (slice ebuf 0 4) = ivSize →
      16 ≤ ebuf.length ∧
        (wordOf (slice ebuf 12 4) ≤ ebuf.length - 12 →
          wordOf (slice ebuf 12 4) + 20 ≤ ebuf.length))

instance (ebuf : Bytes) : Decidable (Guarded ebuf) := inferInstanceAs (Decidable (_ ∧ (_ → _)))

section Bounds

variable {crypto : Crypto} {ebuf : Bytes} {plen place count klen : Nat}

theorem slice_length (inside : place + count ≤ ebuf.length) :
    (slice ebuf place count).length = count := by
  rw [slice, List.length_take, List.length_drop]
  omega

theorem readAt_slice {here : Int} (same : here = place) (inside : place + count ≤ ebuf.length) :
    readAt ebuf here count = some (slice ebuf place count) := by
  have within : 0 ≤ here ∧ here + count ≤ ebuf.length := by omega
  rw [readAt, if_pos within, same, Int.toNat_natCast, slice]

theorem readAt_outside {here : Int} (same : here = place)
    (outside : ebuf.length < place + count) : readAt ebuf here count = none := by
  rw [readAt, if_neg]
  omega

/-- A string is its parts one behind the other. -/
theorem drop_eq_slice (ebuf : Bytes) (place count : Nat) :
    ebuf.drop place = slice ebuf place count ++ ebuf.drop (place + count) := by
  rw [slice, ← List.drop_drop, List.take_append_drop]

theorem wordBytes_slice (inside : place + 4 ≤ ebuf.length) :
    wordBytes (wordOf (slice ebuf place 4)) = slice ebuf place 4 :=
  wordBytes_wordOf (slice_length inside)

theorem sections_flatten (sealed_ : Sealed) :
    (sections sealed_).flatten =
      wordBytes ivSize ++ (sealed_.iv ++ (wordBytes sealed_.kbuf.length ++ (sealed_.kbuf ++
        (wordBytes sealed_.encBuf.length ++ sealed_.encBuf)))) := by
  simp only [sections, List.flatten_cons, List.flatten_nil, List.append_nil]

/-- A string whose lengths fill it is an envelope. -/
theorem isEnvelope_of_lengths {encLen : Nat} (first : wordOf (slice ebuf 0 4) = ivSize)
    (key : wordOf (slice ebuf 12 4) = klen) (third : wordOf (slice ebuf (16 + klen) 4) = encLen)
    (whole : 20 + klen + encLen = ebuf.length) :
    IsEnvelope ebuf
      (slice ebuf 4 ivSize, slice ebuf 16 klen, slice ebuf (20 + klen) encLen) := by
  have iv : (slice ebuf 4 ivSize).length = ivSize := slice_length (by unfold ivSize; omega)
  have kbuf : (slice ebuf 16 klen).length = klen := slice_length (by omega)
  have encBuf : (slice ebuf (20 + klen) encLen).length = encLen := slice_length (by omega)
  have behind : 16 + klen + 4 = 20 + klen := by omega
  refine ⟨⟨slice ebuf 4 ivSize, slice ebuf 16 klen, slice ebuf (20 + klen) encLen, iv⟩, ?_, rfl⟩
  rw [sections_flatten]
  simp only
  rw [kbuf, encBuf, ← first, wordBytes_slice (by omega), first, ← key, wordBytes_slice (by omega),
    key, ← third, wordBytes_slice (by omega), third]
  symm
  calc ebuf = ebuf.drop 0 := rfl
    _ = slice ebuf 0 4 ++ (slice ebuf 4 ivSize ++ (slice ebuf 12 4 ++ ebuf.drop 16)) := by
      rw [drop_eq_slice ebuf 0 4, drop_eq_slice ebuf (0 + 4) ivSize,
        drop_eq_slice ebuf (0 + 4 + ivSize) 4]
      rfl
    _ = _ := by
      rw [drop_eq_slice ebuf 16 klen, drop_eq_slice ebuf (16 + klen) 4,
        behind, drop_eq_slice ebuf (20 + klen) encLen, whole, List.drop_length,
        List.append_nil]

/-- Where the key and the next length are inside, an envelope is handed on or the string is
rejected. -/
theorem unsealCiphertext_cases (short : ebuf.length ≤ maxDataLen)
    (first : wordOf (slice ebuf 0 4) = ivSize) (key : wordOf (slice ebuf 12 4) = klen)
    (inside : klen + 20 ≤ ebuf.length) :
    unsealCiphertext ebuf (slice ebuf 4 ivSize) klen = some (.error .envInvalid) ∨
      ∃ parts, unsealCiphertext ebuf (slice ebuf 4 ivSize) klen = some (.ok parts) ∧
        IsEnvelope ebuf parts := by
  unfold maxDataLen at short
  have rlen : signed (16 + klen) = ((16 + klen : Nat) : Int) := by
    rw [signed_eq (by omega) (by omega)]
    push_cast
    rfl
  have left : unsigned ((ebuf.length : Int) - (16 + klen : Nat)) =
      (ebuf.length : Int) - (16 + klen : Nat) := unsigned_eq (by omega) (by omega)
  unfold unsealCiphertext
  simp only
  rw [rlen, readAt_slice rfl (by omega), Option.bind_some, left]
  split
  · exact .inl rfl
  · next within =>
    have whole : signed (((16 + klen : Nat) : Int) + 4 + wordOf (slice ebuf (16 + klen) 4)) =
        ((20 + klen + wordOf (slice ebuf (16 + klen) 4) : Nat) : Int) := by
      rw [signed_eq (by omega) (by omega)]
      push_cast
      omega
    rw [whole]
    split
    · exact .inl rfl
    · next ends =>
      have ciphertext : 20 + klen + wordOf (slice ebuf (16 + klen) 4) = ebuf.length :=
        Int.ofNat_inj.mp (not_not.mp ends)
      rw [@readAt_slice ebuf 16 klen 16 rfl (by omega), Option.bind_some,
        @readAt_slice ebuf (20 + klen) _ _ (by push_cast; omega) (by omega), Option.map_some]
      exact .inr ⟨_, rfl, isEnvelope_of_lengths first key rfl ciphertext⟩

/-- Where the next length is not inside, it is read outside the string. -/
theorem unsealCiphertext_outside {iv : Bytes} (short : klen + 16 < 2 ^ 31)
    (outside : ebuf.length < klen + 20) : unsealCiphertext ebuf iv klen = none := by
  have rlen : signed (16 + klen) = ((16 + klen : Nat) : Int) := by
    rw [signed_eq (by omega) (by omega)]
    push_cast
    rfl
  unfold unsealCiphertext
  simp only
  rw [rlen, readAt_outside rfl (by omega)]
  rfl

/-- What becomes of a string that the buffer for the message is wide enough for. -/
theorem unsealInput_cases (some_ : 1 ≤ ebuf.length) (short : ebuf.length ≤ maxDataLen)
    (wide : ebuf.length ≤ plen + crypto.pubKeySize) :
    ¬Guarded ebuf ∧ unsealInput crypto ebuf plen = none ∨
      Guarded ebuf ∧ (unsealInput crypto ebuf plen = some (.error .envInvalid) ∨
        ∃ parts, unsealInput crypto ebuf plen = some (.ok parts) ∧ IsEnvelope ebuf parts) := by
  have notLong : ¬(maxDataLen : Int) < ebuf.length := by exact_mod_cast Nat.not_lt.mpr short
  have notNarrow : ¬((plen : Int) < ebuf.length - crypto.pubKeySize ∨ (ebuf.length : Int) < 1) := by
    clear short notLong
    omega
  unfold maxDataLen at short
  unfold unsealInput
  simp only
  rw [if_neg notLong, if_neg notNarrow]
  unfold Guarded
  by_cases four : 4 ≤ ebuf.length
  · rw [@readAt_slice ebuf 0 4 0 rfl (by omega), Option.bind_some]
    by_cases first : wordOf (slice ebuf 0 4) = ivSize
    · rw [if_neg (not_not.mpr first)]
      by_cases header : 16 ≤ ebuf.length
      · rw [@readAt_slice ebuf 4 ivSize 4 rfl (by unfold ivSize; omega), Option.bind_some,
          @readAt_slice ebuf 12 4 12 rfl (by omega), Option.bind_some,
          unsigned_eq (by omega) (by omega)]
        by_cases within : wordOf (slice ebuf 12 4) ≤ ebuf.length - 12
        · rw [if_neg (by omega)]
          by_cases inside : wordOf (slice ebuf 12 4) + 20 ≤ ebuf.length
          · exact .inr ⟨⟨four, fun _ => ⟨header, fun _ => inside⟩⟩,
              unsealCiphertext_cases short first rfl inside⟩
          · refine .inl ⟨fun guarded => inside ((guarded.2 first).2 within), ?_⟩
            exact unsealCiphertext_outside (by omega) (by omega)
        · rw [if_pos (by omega)]
          exact .inr ⟨⟨four, fun _ => ⟨header, fun less => absurd less within⟩⟩, .inl rfl⟩
      · refine .inl ⟨fun guarded => header (guarded.2 first).1, ?_⟩
        by_cases twelve : 12 ≤ ebuf.length
        · rw [@readAt_slice ebuf 4 ivSize 4 rfl (by unfold ivSize; omega), Option.bind_some,
            @readAt_outside ebuf 12 4 12 rfl (by omega)]
          rfl
        · rw [@readAt_outside ebuf 4 ivSize 4 rfl (by unfold ivSize; omega)]
          rfl
    · rw [if_pos first]
      exact .inr ⟨⟨four, fun same => absurd same first⟩, .inl rfl⟩
  · refine .inl ⟨fun guarded => four guarded.1, ?_⟩
    rw [@readAt_outside ebuf 0 4 0 rfl (by omega)]
    rfl

/-- A string stays inside exactly if the sections it announces are in it. Where the buffer for the
message is narrow, only an envelope may be refused for that. -/
theorem staysInside_iff (crypto : Crypto) (ebuf : Bytes) (plen : Nat) (some_ : 1 ≤ ebuf.length)
    (short : ebuf.length ≤ maxDataLen) :
    StaysInside crypto ebuf plen ↔
      if ebuf.length ≤ plen + crypto.pubKeySize then Guarded ebuf
      else ∃ parts, IsEnvelope ebuf parts := by
  by_cases wide : ebuf.length ≤ plen + crypto.pubKeySize
  · rw [if_pos wide]
    rcases unsealInput_cases some_ short wide with
      ⟨unguarded, outside⟩ | ⟨guarded, rejected | ⟨parts, handed, envelope⟩⟩
    · refine iff_of_false (fun stays => ?_) unguarded
      obtain ⟨result, same⟩ := stays.inside
      rw [outside] at same
      cases same
    · refine iff_of_true ⟨⟨_, rejected⟩, fun parts handed => ?_, fun _ => rejected⟩ guarded
      rw [rejected] at handed
      cases handed
    · refine iff_of_true ⟨⟨_, handed⟩, fun other same => ?_, fun none => ?_⟩ guarded
      · rw [handed] at same
        cases same
        exact envelope
      · exact absurd ⟨parts, envelope⟩ none
  · rw [if_neg wide]
    have narrow : unsealInput crypto ebuf plen =
        some (.error (.bufInvalid (ebuf.length - crypto.pubKeySize))) := by
      have notLong : ¬(maxDataLen : Int) < ebuf.length := by exact_mod_cast Nat.not_lt.mpr short
      have asked : (plen : Int) < ebuf.length - crypto.pubKeySize := by
        clear short notLong
        omega
      rw [unsealInput, if_neg notLong, if_pos (.inl asked)]
    constructor
    · intro stays
      by_contra none
      have rejected := stays.rejected none
      rw [narrow] at rejected
      cases rejected
    · intro envelope
      refine ⟨⟨_, narrow⟩, fun parts handed => ?_, fun none => absurd envelope none⟩
      rw [narrow] at handed
      cases handed

/-- An envelope with a key of two bytes and a ciphertext of one block. -/
def twoByteKey : Bytes :=
  [8, 0, 0, 0] ++ ([1, 2, 3, 4, 5, 6, 7, 8] ++ ([2, 0, 0, 0] ++ ([17, 34] ++
    ([8, 0, 0, 0] ++ [65, 66, 67, 5, 5, 5, 5, 5]))))

theorem staysInside_iff_two_byte_key :
    StaysInside padding twoByteKey 20 ∧
      unsealInput padding twoByteKey 20 =
        some (.ok ([1, 2, 3, 4, 5, 6, 7, 8], [17, 34], [65, 66, 67, 5, 5, 5, 5, 5])) := by
  have stays := (staysInside_iff padding twoByteKey 20 (by decide) (by decide)).mpr (by
    rw [if_pos (by decide)]
    decide)
  exact ⟨stays, by decide⟩

/-- A key of eight bytes is announced where there are only four. -/
def tooShort : Bytes := [8, 0, 0, 0] ++ (List.replicate 8 0 ++ ([8, 0, 0, 0] ++ [1, 2, 3, 4]))

/-- The key and its length are compared with the string together, and the next length is read
behind its end. -/
theorem length_read_outside :
    1 ≤ tooShort.length ∧ tooShort.length ≤ maxDataLen ∧ ¬StaysInside padding tooShort 56 := by
  refine ⟨by decide, by decide, fun stays => ?_⟩
  obtain ⟨result, same⟩ := stays.inside
  have outside : unsealInput padding tooShort 56 = none := by decide
  rw [outside] at same
  cases same

end Bounds

end ExmOnvif.GtComApi.Envelope
