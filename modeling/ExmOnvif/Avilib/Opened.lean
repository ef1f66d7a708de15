/-
This file proves what is found when a file is opened that begins with the header of the writer: the
list of the headers, the place where the chunks begin, and in the headers what was set by the
writer.
-/

import ExmOnvif.Avilib.Input
import ExmOnvif.Avilib.Written

namespace ExmOnvif.Avilib

open Library

variable {file tag more : Bytes} {pos n turns : Nat}

/-! ### Numbers and tags -/

theorem wordInt_mod (small : n < 2 ^ 31) : wordInt (n % 2 ^ 32) = n := by
  rw [Nat.mod_eq_of_lt (Nat.lt_trans small (by decide)), wordInt_of_small small]

theorem padEven_natCast (n : Nat) : padEven n = ((n + n % 2 : Nat) : Int) := by
  unfold padEven
  omega

theorem seekBy_natCast (inside : pos + n < 2 ^ 31) : seekBy pos n = pos + n := by
  have place : ((pos : Int) + n) = ((pos + n : Nat) : Int) := (Int.natCast_add _ _).symm
  have seekable : Seekable (pos + n) := by
    rw [place]
    exact ⟨Int.natCast_nonneg _, by omega⟩
  rw [seekBy, seekTo, if_pos seekable, place, Int.toNat_natCast]

theorem seekTo_natCast {place : Nat} (inside : place < 2 ^ 31) : seekTo pos place = place := by
  rw [seekTo, if_pos ⟨Int.natCast_nonneg _, by omega⟩, Int.toNat_natCast]

/-- The tag and the number at the front of a chunk or a list. -/
theorem read_front (here : At file pos (tag ++ (wordBytes n ++ more))) (four : tag.length = 4) :
    readAt file pos 8 = tag ++ wordBytes n := by
  rw [← List.append_assoc] at here
  refine here.left.read ?_
  rw [List.length_append, four, wordBytes_length]

theorem take_front (four : tag.length = 4) : (tag ++ wordBytes n).take 4 = tag := by
  rw [← four, List.take_left]

theorem drop_front (four : tag.length = 4) : (tag ++ wordBytes n).drop 4 = wordBytes n := by
  rw [← four, List.drop_left]

theorem front_length (four : tag.length = 4) : (tag ++ wordBytes n).length = 8 := by
  rw [List.length_append, four, wordBytes_length]

/-! ### The parts of the header -/

section Header

variable {front : Avi} {moviLen : Nat} {hasIndex : Bool}

/-- The places of the parts of the header. -/
structure Parts (file : Bytes) (front : Avi) (moviLen : Nat) (hasIndex : Bool) : Prop where
  riff : At file 0 (fourcc "RIFF" ++ (wordBytes (front.pos - 8) ++ fourcc "AVI "))
  hdrl : At file 12 (Avi.list "hdrl" (front.hdrl hasIndex))
  junk : At file (24 + (front.hdrl hasIndex).length) (fourcc "JUNK" ++
    (wordBytes (front.njunk hasIndex) ++ []))
  movi : At file 2036 (fourcc "LIST" ++ (wordBytes moviLen ++ fourcc "movi"))

theorem parts_of_header (compressor : front.media.compressor.length = 4)
    (here : At file 0 (front.header moviLen hasIndex)) : Parts file front moviLen hasIndex := by
  have inner := length_hdrl compressor hasIndex
  have list := length_list "hdrl" (front.hdrl hasIndex) rfl
  have whole := here
  unfold Avi.header at here
  have afterRiff : At file 12 _ := here.right.right.right
  have afterList := afterRiff.right
  rw [list] at afterList
  have junkPlace : 12 + (12 + (front.hdrl hasIndex).length) = 24 +
      (front.hdrl hasIndex).length := by
    omega
  rw [junkPlace] at afterList
  have last := afterList.right.right.right.right
  refine ⟨?_, afterRiff.left, ?_, ?_⟩
  · rw [← List.append_assoc, ← List.append_assoc] at here
    rw [← List.append_assoc]
    exact here.left
  · rw [List.append_nil]
    rw [← List.append_assoc] at afterList
    exact afterList.left
  · have place : 24 + (front.hdrl hasIndex).length + (fourcc "JUNK").length +
        (wordBytes (front.njunk hasIndex)).length + (fourcc "AVI file").length +
        (List.replicate (front.njunk hasIndex - 8) (0 : UInt8)).length = 2036 := by
      have tags : (fourcc "JUNK").length = 4 ∧ (fourcc "AVI file").length = 8 := ⟨rfl, rfl⟩
      rw [tags.1, tags.2, wordBytes_length, List.length_replicate, Avi.njunk, headerBytes]
      split at inner <;> omega
    rw [place] at last
    exact last

/-- What is read first is that of an AVI file. -/
theorem riff_length (n : Nat) : ¬(fourcc "RIFF" ++ (wordBytes n ++ fourcc "AVI ")).length ≠ 12 :=
  not_not.mpr rfl

theorem riff_tags (n : Nat) :
    ¬¬(sameTag ((fourcc "RIFF" ++ (wordBytes n ++ fourcc "AVI ")).take 4) (fourcc "RIFF") ∧
      sameTag ((fourcc "RIFF" ++ (wordBytes n ++ fourcc "AVI ")).drop 8) (fourcc "AVI ")) :=
  not_not.mpr ⟨rfl, rfl⟩

/-! ### Going through the header -/

/-- A turn at a list of another name than `hdrl` and `movi`, or at another chunk. -/
theorem layoutTurn_skip (layout : Layout) (here : At file layout.pos (tag ++ (wordBytes n ++ more)))
    (four : tag.length = 4) (noList : ¬sameTag tag (fourcc "LIST"))
    (noIndex : ¬sameTag tag (fourcc "idx1")) (inside : layout.pos + 8 + (n + n % 2) < 2 ^ 31) :
    layoutTurn file layout = some (.inl { layout with pos := layout.pos + 8 + (n + n % 2) }) := by
  have small : n < 2 ^ 31 := by omega
  rw [layoutTurn, read_front here four]
  simp only [front_length four, take_front four, drop_front four, ne_eq,
    not_true_eq_false, if_false, if_neg noList, if_neg noIndex,
    wordOf_wordBytes (Nat.lt_trans small (by decide)), wordInt_of_small small, padEven_natCast,
    seekBy_natCast inside]

theorem layoutTurn_end {layout : Layout} (ended : file.length ≤ layout.pos) :
    layoutTurn file layout = some (.inr (.ok layout)) := by
  rw [layoutTurn, readAt_behind ended]
  rfl

/-- A turn at a list: its name is read. -/
theorem layoutTurn_list (layout : Layout) {name : Bytes}
    (here : At file layout.pos (fourcc "LIST" ++ (wordBytes n ++ (name ++ more))))
    (four : name.length = 4) (small : n < 2 ^ 31) :
    layoutTurn file layout =
      if sameTag name (fourcc "hdrl") then
        if (((n + n % 2 : Nat) : Int) - 4) < 0 then some (.inr (.error .noMem))
        else
          let size := (((n + n % 2 : Nat) : Int) - 4).toNat
          let hdrl := readAt file (layout.pos + 12) size
          if hdrl.length ≠ size then some (.inr (.error .read))
          else some (.inl { layout with pos := layout.pos + 12 + size, hdrl := some hdrl })
      else if sameTag name (fourcc "movi") then
        some (.inl { layout with
          pos := seekBy (layout.pos + 12) (((n + n % 2 : Nat) : Int) - 4)
          moviStart := layout.pos + 12 })
      else
        some (.inl { layout with
          pos := seekBy (layout.pos + 12) (((n + n % 2 : Nat) : Int) - 4) }) := by
  have list : (fourcc "LIST").length = 4 := rfl
  have same : sameTag (fourcc "LIST") (fourcc "LIST") := rfl
  have nameRead : readAt file (layout.pos + 8) 4 = name := here.right.right.left.read four
  rw [layoutTurn, read_front here list]
  simp only [front_length list, take_front list, drop_front list, ne_eq,
    not_true_eq_false, if_false, if_pos same, wordOf_wordBytes (Nat.lt_trans small (by decide)),
    wordInt_of_small small, padEven_natCast, nameRead, four]

/-- What is known of a file behind its header. -/
theorem scan_layout (compressor : front.media.compressor.length = 4)
    (here : At file 0 (front.header moviLen hasIndex)) (small : moviLen < 2 ^ 31)
    (turns : Nat) :
    scan (layoutTurn file) (turns + 3) ⟨12, none, 0, none⟩ =
      scan (layoutTurn file) turns
        ⟨seekBy 2048 (((moviLen + moviLen % 2 : Nat) : Int) - 4), some (front.hdrl hasIndex), 2048,
          none⟩ := by
  obtain ⟨_, hdrl, junk, movi⟩ := parts_of_header compressor here
  have inner := length_hdrl compressor hasIndex
  have even : (4 + (front.hdrl hasIndex).length) % 2 = 0 := by split at inner <;> omega
  have short : (front.hdrl hasIndex).length ≤ 304 := by split at inner <;> omega
  have nameLength : (fourcc "hdrl").length = 4 := rfl
  have first : layoutTurn file ⟨12, none, 0, none⟩ =
      some (.inl ⟨24 + (front.hdrl hasIndex).length, some (front.hdrl hasIndex), 0, none⟩) := by
    have content : At file 24 (front.hdrl hasIndex) := hdrl.right.right.right
    have size : (((4 + (front.hdrl hasIndex).length +
      (4 + (front.hdrl hasIndex).length) % 2 : Nat) :
        Int) - 4).toNat = (front.hdrl hasIndex).length := by omega
    rw [layoutTurn_list ⟨12, none, 0, none⟩ hdrl nameLength (by omega),
      if_pos (show sameTag (fourcc "hdrl") (fourcc "hdrl") from rfl), if_neg (by omega)]
    simp only [size, content.read rfl, ne_eq, not_true_eq_false, if_false]
  have jump : 24 + (front.hdrl hasIndex).length + 8 +
      (front.njunk hasIndex + front.njunk hasIndex % 2) = 2036 := by
    rw [Avi.njunk, headerBytes]
    split at inner <;> omega
  have second : layoutTurn file ⟨24 + (front.hdrl hasIndex).length, some (front.hdrl hasIndex), 0,
      none⟩ = some (.inl ⟨2036, some (front.hdrl hasIndex), 0, none⟩) := by
    rw [layoutTurn_skip ⟨_, _, _, _⟩ junk rfl (by decide) (by decide)
      (by rw [jump]; decide), jump]
  have third : layoutTurn file ⟨2036, some (front.hdrl hasIndex), 0, none⟩ =
      some (.inl ⟨seekBy 2048 (((moviLen + moviLen % 2 : Nat) : Int) - 4),
        some (front.hdrl hasIndex), 2048, none⟩) := by
    rw [← List.append_nil (fourcc "movi")] at movi
    rw [layoutTurn_list ⟨2036, some (front.hdrl hasIndex), 0, none⟩ movi rfl small,
      if_neg (by decide), if_pos (show sameTag (fourcc "movi") (fourcc "movi") from rfl)]
  exact (scan_next _ first).trans ((scan_next _ second).trans (scan_next _ third))

end Header

/-! ### Interpreting the headers -/

/-- Each of some words stands at its place. -/
theorem at_words {place : Nat} {values : List Nat} (here : At file place (words values))
    (index : Nat)
    (inside : index < values.length) : At file (place + 4 * index) (wordBytes values[index]) := by
  induction values generalizing place index with
  | nil => cases inside
  | cons value values inductionHypothesis =>
    have cons : words (value :: values) = wordBytes value ++ words values := rfl
    rw [cons] at here
    cases index with
    | zero => exact here.left
    | succ index =>
      have behind := inductionHypothesis here.right index (Nat.lt_of_succ_lt_succ inside)
      have place_eq : place + (wordBytes value).length + 4 * index = place + 4 * (index + 1) := by
        rw [wordBytes_length]
        omega
      rwa [place_eq] at behind

theorem shortOf_shortBytes (value : Nat) : shortOf (shortBytes value) = value % 2 ^ 16 := by
  simp only [shortBytes, shortOf, UInt8.toNat_ofNat']
  omega

section Headers

variable {hdrl piece : Bytes} {i value : Nat} {headers : Headers}

theorem bytesAt_of_at {count : Nat} (here : At hdrl i piece) (length : piece.length = count)
    (some : 0 < count) : bytesAt hdrl i count = .some piece := by
  have within := here.length_le (List.ne_nil_of_length_pos (Nat.lt_of_lt_of_eq some length.symm))
  rw [bytesAt, if_pos ⟨Int.natCast_nonneg _, by omega⟩, Int.toNat_natCast, here.read length]

theorem wordAt_of_at (here : At hdrl i (wordBytes value)) :
    wordAt hdrl i = some (value % 2 ^ 32) := by
  rw [wordAt, bytesAt_of_at here (wordBytes_length _) (by decide), Option.map_some,
    wordOf_wordBytes_mod]

theorem wordAt_of_at_long {value : Int} (here : At hdrl i (longBytes value)) :
    wordAt hdrl i = some ((value % 2 ^ 32).toNat % 2 ^ 32) := wordAt_of_at here

theorem shortAt_of_at (here : At hdrl i (shortBytes value)) :
    shortAt hdrl i = some (value % 2 ^ 16) := by
  rw [shortAt, bytesAt_of_at here (length_shortBytes _) (by decide), Option.map_some,
    shortOf_shortBytes]

/-- A turn at a chunk of the headers. -/
theorem headerTurn_chunk (here : At hdrl i (tag ++ (wordBytes n ++ more))) (four : tag.length = 4)
    (noList : ¬sameTag tag (fourcc "LIST")) (small : n < 2 ^ 31) (place : headers.i = i) :
    headerTurn hdrl headers =
      (if sameTag tag (fourcc "strh") then strh hdrl ((i + 8 : Nat) : Int) headers
        else if sameTag tag (fourcc "strf") then strf hdrl ((i + 8 : Nat) : Int) headers
        else some { headers with lasttag := .none }).map
      fun after => .inl { after with i := ((i + 8 + (n + n % 2) : Nat) : Int) } := by
  have tagRead := bytesAt_of_at here.left four (by decide)
  have behind := here.right.left
  rw [four] at behind
  have lengthRead := wordAt_of_at behind
  have inside := here.left.length_le (List.ne_nil_of_length_pos (by rw [four]; decide))
  have on : headers.i < hdrl.length := by omega
  rw [headerTurn, if_neg (not_not.mpr on), place, tagRead]
  have lengthCast : ((i : Int) + 4) = ((i + 4 : Nat) : Int) := rfl
  have behindCast : ((i : Int) + 8) = ((i + 8 : Nat) : Int) := rfl
  have endCast : (((i + 8 : Nat) : Int) + ((n + n % 2 : Nat) : Int)) =
      ((i + 8 + (n + n % 2) : Nat) : Int) := rfl
  simp only [Option.bind_eq_bind, Option.bind_some, if_neg noList, lengthCast,
    lengthRead, behindCast, Nat.mod_eq_of_lt (Nat.lt_trans small (by decide : 2 ^ 31 < 2 ^ 32)),
    wordInt_of_small small, padEven_natCast, endCast, Option.pure_def, Option.map_eq_bind]
  by_cases stream : sameTag tag (fourcc "strh")
  · simp only [if_pos stream]
    rfl
  · by_cases format : sameTag tag (fourcc "strf")
    · simp only [if_neg stream, if_pos format]
      rfl
    · simp only [if_neg stream, if_neg format]
      rfl

theorem headerTurn_end (ended : (hdrl.length : Int) ≤ headers.i) :
    headerTurn hdrl headers = some (.inr headers) := if_pos (not_lt.mpr ended)

/-- A turn at a list of the headers: its chunks come next. -/
theorem headerTurn_list (here : At hdrl i (fourcc "LIST" ++ more)) (place : headers.i = i) :
    headerTurn hdrl headers = some (.inl { headers with i := ((i + 12 : Nat) : Int) }) := by
  have tagRead : bytesAt hdrl i 4 = _ := bytesAt_of_at here.left rfl (by decide)
  have inside := here.left.length_le (by decide)
  have four : (fourcc "LIST").length = 4 := rfl
  have on : headers.i < hdrl.length := by omega
  rw [headerTurn, if_neg (not_not.mpr on), place, tagRead]
  rfl

variable {avi : Avi}

theorem strh_video (here : At hdrl i (fourcc "vids" ++ (avi.media.compressor ++
    (words [0, 0, 0, 10000, frate avi.media.fps, 0, avi.videoFrames, 0] ++ more))))
    (compressor : avi.media.compressor.length = 4) (unseen : headers.vidsStrhSeen = false) :
    strh hdrl i headers = some { headers with
      info := { headers.info with
        compressor := avi.media.compressor
        fps := wordInt (frate avi.media.fps % 2 ^ 32) / 10000
        videoFrames := wordInt (avi.videoFrames % 2 ^ 32)
        videoStrn := headers.numStream }
      vidsStrhSeen := true
      lasttag := .vids
      numStream := headers.numStream + 1 } := by
  have kind : bytesAt hdrl i 4 = _ := bytesAt_of_at here.left rfl (by decide)
  have compressorRead := bytesAt_of_at here.right.left compressor (by decide)
  have numbers := here.right.right.left
  rw [compressor] at numbers
  have scale := wordAt_of_at (at_words numbers 3 (by simp))
  have rate := wordAt_of_at (at_words numbers 4 (by simp))
  have frames := wordAt_of_at (at_words numbers 6 (by simp))
  have vids : sameTag (fourcc "vids") (fourcc "vids") ∧ ¬headers.vidsStrhSeen = true :=
    ⟨rfl, by rw [unseen]; decide⟩
  have tenThousand : wordInt (10000 % 2 ^ 32) = 10000 := by decide
  have four : (i : Int) + 4 = ((i + (fourcc "vids").length : Nat) : Int) := rfl
  have twenty : (i : Int) + 20 = ((i + (fourcc "vids").length + 4 + 4 * 3 : Nat) : Int) := rfl
  have twentyFour : (i : Int) + 24 = ((i + (fourcc "vids").length + 4 + 4 * 4 : Nat) : Int) := rfl
  have thirtyTwo : (i : Int) + 32 = ((i + (fourcc "vids").length + 4 + 4 * 6 : Nat) : Int) := rfl
  rw [strh, kind]
  simp only [Option.bind_eq_bind, Option.bind_some, if_pos vids, four, twenty,
    twentyFour, thirtyTwo, compressorRead, scale, rate, frames, Option.pure_def]
  simp only [List.getElem_cons_succ, List.getElem_cons_zero, tenThousand]
  rfl

theorem strf_video (here : At hdrl i (words [40, avi.media.width, avi.media.height] ++
    (shortBytes 1 ++ (shortBytes 24 ++ (avi.media.compressor ++ more)))))
    (compressor : avi.media.compressor.length = 4) (last : headers.lasttag = .vids) :
    strf hdrl i headers = some { headers with
      info := { headers.info with
        width := wordInt (avi.media.width % 2 ^ 32)
        height := wordInt (avi.media.height % 2 ^ 32) }
      vidsStrfSeen := true
      lasttag := .none } := by
  have width := wordAt_of_at (at_words here.left 1 (by simp))
  have height := wordAt_of_at (at_words here.left 2 (by simp))
  have compression := bytesAt_of_at here.right.right.right.left compressor (by decide)
  have four : (i : Int) + 4 = ((i + 4 * 1 : Nat) : Int) := rfl
  have eight : (i : Int) + 8 = ((i + 4 * 2 : Nat) : Int) := rfl
  have sixteen : (i : Int) + 16 = ((i + (words [40, avi.media.width, avi.media.height]).length +
    (shortBytes 1).length + (shortBytes 24).length : Nat) : Int) := rfl
  rw [strf, last]
  simp only [Option.bind_eq_bind, Option.bind_some, four, eight, sixteen, width, height,
    compression, Option.pure_def]
  rfl

theorem strh_audio (here : At hdrl i (fourcc "auds" ++ (words [0, 0, 0, 0, avi.sampsize / 4,
    avi.media.aRate * (avi.sampsize / 4) / avi.media.aChans / avi.media.aChans, 0] ++
      (longBytes avi.audioLength ++ more)))) (unseen : headers.audsStrhSeen = false) :
    strh hdrl i headers = some { headers with
      info := { headers.info with audioStrn := headers.numStream }
      audsStrhSeen := true
      lasttag := .auds
      numStream := headers.numStream + 1 } := by
  have kind : bytesAt hdrl i 4 = _ := bytesAt_of_at here.left rfl (by decide)
  have length := wordAt_of_at_long here.right.right.left
  have notVids : ¬(sameTag (fourcc "auds") (fourcc "vids") ∧ ¬headers.vidsStrhSeen = true) :=
    fun both => absurd both.1 (by decide)
  have auds : sameTag (fourcc "auds") (fourcc "auds") ∧ ¬headers.audsStrhSeen = true :=
    ⟨rfl, by rw [unseen]; decide⟩
  rw [strh, kind]
  simp only [Option.bind_eq_bind, Option.bind_some, if_neg notVids, if_pos auds]
  have thirtyTwo : wordAt hdrl ((i : Int) + 32) = _ := length
  rw [thirtyTwo]
  rfl

theorem strf_audio (here : At hdrl i (shortBytes avi.media.aFmt ++ (shortBytes avi.media.aChans ++
    (words [avi.media.aRate / avi.media.aBits * 8 / avi.media.aChans,
      avi.media.aRate * (avi.sampsize / 4) / avi.media.aChans] ++
      (shortBytes (avi.sampsize / 4) ++ shortBytes avi.media.aBits)))))
    (last : headers.lasttag = .auds) :
    strf hdrl i headers = some { headers with
      info := { headers.info with
        aFmt := avi.media.aFmt % 2 ^ 16
        aChans := avi.media.aChans % 2 ^ 16
        aRate := wordInt (avi.media.aRate / avi.media.aBits * 8 / avi.media.aChans % 2 ^ 32)
        aBits := avi.media.aBits % 2 ^ 16 }
      lasttag := .none } := by
  have fmt := shortAt_of_at here.left
  have chans := shortAt_of_at here.right.left
  have rate := wordAt_of_at (at_words here.right.right.left 0 (by simp))
  have bytesRate := wordAt_of_at (at_words here.right.right.left 1 (by simp))
  have bits := shortAt_of_at here.right.right.right.right
  have two : shortAt hdrl ((i : Int) + 2) = _ := chans
  have four : wordAt hdrl ((i : Int) + 4) = _ := rate
  have eight : wordAt hdrl ((i : Int) + 8) = _ := bytesRate
  have fourteen : shortAt hdrl ((i : Int) + 14) = _ := bits
  rw [strf, last]
  simp only [Option.bind_eq_bind, Option.bind_some, fmt, two, four, eight, fourteen,
    Option.pure_def]
  rfl

/-! The turns at the headers and the formats of the streams. -/

theorem headerTurn_videoStrh (here : At hdrl i avi.videoStrh)
    (compressor : avi.media.compressor.length = 4) (place : headers.i = i)
    (unseen : headers.vidsStrhSeen = false) :
    headerTurn hdrl headers = some (.inl { headers with
      i := ((i + 72 : Nat) : Int)
      info := { headers.info with
        compressor := avi.media.compressor
        fps := wordInt (frate avi.media.fps % 2 ^ 32) / 10000
        videoFrames := wordInt (avi.videoFrames % 2 ^ 32)
        videoStrn := headers.numStream }
      vidsStrhSeen := true
      lasttag := .vids
      numStream := headers.numStream + 1 }) := by
  have stream : strh hdrl ((i + 8 : Nat) : Int) headers = _ :=
    strh_video here.right.right compressor unseen
  rw [headerTurn_chunk here rfl (by decide) (by decide) place, if_pos (by decide), stream]
  rfl

theorem headerTurn_videoStrf (here : At hdrl i avi.videoStrf)
    (compressor : avi.media.compressor.length = 4) (place : headers.i = i)
    (last : headers.lasttag = .vids) :
    headerTurn hdrl headers = some (.inl { headers with
      i := ((i + 48 : Nat) : Int)
      info := { headers.info with
        width := wordInt (avi.media.width % 2 ^ 32)
        height := wordInt (avi.media.height % 2 ^ 32) }
      vidsStrfSeen := true
      lasttag := .none }) := by
  have format : strf hdrl ((i + 8 : Nat) : Int) headers = _ :=
    strf_video here.right.right compressor last
  rw [headerTurn_chunk here rfl (by decide) (by decide) place, if_neg (by decide),
    if_pos (by decide), format]
  rfl

theorem headerTurn_audioStrh (here : At hdrl i avi.audioStrh) (place : headers.i = i)
    (unseen : headers.audsStrhSeen = false) :
    headerTurn hdrl headers = some (.inl { headers with
      i := ((i + 72 : Nat) : Int)
      info := { headers.info with audioStrn := headers.numStream }
      audsStrhSeen := true
      lasttag := .auds
      numStream := headers.numStream + 1 }) := by
  have stream : strh hdrl ((i + 8 : Nat) : Int) headers = _ :=
    strh_audio here.right.right unseen
  rw [headerTurn_chunk here rfl (by decide) (by decide) place, if_pos (by decide), stream]
  rfl

theorem headerTurn_audioStrf (here : At hdrl i avi.audioStrf) (place : headers.i = i)
    (last : headers.lasttag = .auds) :
    headerTurn hdrl headers = some (.inl { headers with
      i := ((i + 24 : Nat) : Int)
      info := { headers.info with
        aFmt := avi.media.aFmt % 2 ^ 16
        aChans := avi.media.aChans % 2 ^ 16
        aRate := wordInt (avi.media.aRate / avi.media.aBits * 8 / avi.media.aChans % 2 ^ 32)
        aBits := avi.media.aBits % 2 ^ 16 }
      lasttag := .none }) := by
  have format : strf hdrl ((i + 8 : Nat) : Int) headers = _ := strf_audio here.right.right last
  rw [headerTurn_chunk here rfl (by decide) (by decide) place, if_neg (by decide),
    if_pos (by decide), format]
  rfl

/-- What the headers say of what was set. -/
def Avi.info (avi : Avi) : Info where
  width := wordInt (avi.media.width % 2 ^ 32)
  height := wordInt (avi.media.height % 2 ^ 32)
  fps := wordInt (frate avi.media.fps % 2 ^ 32) / 10000
  compressor := avi.media.compressor
  videoFrames := wordInt (avi.videoFrames % 2 ^ 32)
  videoStrn := 0
  aFmt := if avi.media.aChans ≠ 0 then avi.media.aFmt % 2 ^ 16 else 0
  aChans := if avi.media.aChans ≠ 0 then avi.media.aChans % 2 ^ 16 else 0
  aRate :=
    if avi.media.aChans ≠ 0 then
      wordInt (avi.media.aRate / avi.media.aBits * 8 / avi.media.aChans % 2 ^ 32)
    else 0
  aBits := if avi.media.aChans ≠ 0 then avi.media.aBits % 2 ^ 16 else 0
  audioStrn := if avi.media.aChans ≠ 0 then 1 else 0

/-- The headers say what was set. -/
theorem scan_headers (avi : Avi) (hasIndex : Bool) (compressor : avi.media.compressor.length = 4)
    (turns : Nat) : ∃ headers,
      scan (headerTurn (avi.hdrl hasIndex)) (turns + 8) ⟨0, .zero, .none, false, false, false, 0⟩ =
        some headers ∧
      headers.info = avi.info ∧ headers.vidsStrhSeen = true ∧ headers.vidsStrfSeen = true := by
  have whole : At (avi.hdrl hasIndex) 0 (avi.hdrl hasIndex) := at_start _
  have length := length_hdrl compressor hasIndex
  have list := length_list "strl" (avi.videoStrh ++ avi.videoStrf) rfl
  rw [List.length_append, length_videoStrh compressor, length_videoStrf compressor] at list
  have video : At (avi.hdrl hasIndex) 76 (avi.videoStrh ++ avi.videoStrf) :=
    whole.right.left.right.right.right
  have videoFormat : At (avi.hdrl hasIndex) 148 avi.videoStrf := by
    have behind := video.right
    rwa [length_videoStrh compressor] at behind
  have fourth : headerTurn (avi.hdrl hasIndex) ⟨148, { Info.zero with
      compressor := avi.media.compressor
      fps := wordInt (frate avi.media.fps % 2 ^ 32) / 10000
      videoFrames := wordInt (avi.videoFrames % 2 ^ 32) }, .vids, true, false, false, 1⟩ = _ :=
    headerTurn_videoStrf videoFormat compressor rfl rfl
  have four (turns : Nat) : scan (headerTurn (avi.hdrl hasIndex)) (turns + 4)
      ⟨0, .zero, .none, false, false, false, 0⟩ = _ :=
    (scan_next (turns + 3) (headerTurn_chunk whole.left rfl (by decide) (by decide) rfl)).trans
      ((scan_next (turns + 2) (headerTurn_list whole.right.left rfl)).trans
        ((scan_next (turns + 1) (headerTurn_videoStrh video.left compressor rfl rfl)).trans
          (scan_next turns fourth)))
  by_cases sound : avi.media.aChans ≠ 0
  · rw [if_pos sound] at length
    have audioList : At (avi.hdrl hasIndex) 196
        (Avi.list "strl" (avi.audioStrh ++ avi.audioStrf)) := by
      have behind := whole.right.right
      rw [if_pos sound, list] at behind
      exact behind
    have audio : At (avi.hdrl hasIndex) 208 (avi.audioStrh ++ avi.audioStrf) :=
      audioList.right.right.right
    have audioFormat : At (avi.hdrl hasIndex) 280 avi.audioStrf := by
      have behind := audio.right
      rwa [length_audioStrh] at behind
    refine ⟨_, (four (turns + 4)).trans
      ((scan_next (turns + 3) (headerTurn_list audioList.left rfl)).trans
      ((scan_next (turns + 2) (headerTurn_audioStrh audio.left rfl rfl)).trans
        ((scan_next (turns + 1) (headerTurn_audioStrf audioFormat rfl rfl)).trans
          (scan_result turns (headerTurn_end ?_))))), ?_, rfl, rfl⟩
    · rw [length]
    · simp only [Avi.info, if_pos sound]
      rfl
  · rw [if_neg sound] at length
    refine ⟨_, (four (turns + 4)).trans (scan_result (turns + 3) (headerTurn_end ?_)), ?_, rfl, rfl⟩
    · rw [length]
    · simp only [Avi.info, if_neg sound]
      rfl

end Headers

end ExmOnvif.Avilib
