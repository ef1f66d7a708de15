/-
This file models the end of a recorded file and proves what it leaves of the file in its
channel.

The name the file was recorded under is read, and a name with the length of the file is
made of what was read. A file of an alarm or of a recording by hand is locked, and a file
that was queried meanwhile gets the length it was announced with. Then the file is
renamed. Where a name is not read or not made, the file keeps its name, and the channel is
reset all the same. Where renaming fails, a device with a disk ends the program to have the
disk repaired, and elsewhere the function returns without resetting the channel.

The recording thread does not look at the result. It creates the next file when the
channel has none, takes the length from the seconds since, and closes it at the next cut.
-/

import ExmOnvif.HdModule.Channel
import ExmOnvif.FileIndex.Convert

namespace ExmOnvif.HdModule

open Library FileIndex

/-! ### The file of a channel -/

/-- What `hd_enc_struct` says of the file that is recorded. Of an open file there is the
descriptor. -/
structure HdFile where
  channel : Int
  state : Int
  filename : Text
  filelen : Int
  trig : Int
  cutflag : Int
  queryflag : Int
  remoteTrigged : Int
  partition : Text
  aviinfo : Option Int
deriving DecidableEq, Repr

/-- What the functions meet besides the channel: the calendar of the C library, what a file
information has in it before a name is read, the longest files of the channels, what
`fileindex_rename_in_partition` returns, `errno`, the kind of build, and the kind of disk. -/
structure Around where
  localtime : Int → Option Tm
  mktime : Tm → Int
  stack : FileInfo
  maxLens : List Int
  renameInPartition : Text → Text → Text → Int
  error : Int
  embeded : Bool
  ideFlag : Int

/-- `get_hdch`, of which the longest files of all channels are used. -/
def getHdch (maxLens : List Int) (channel : Int) : Option Int :=
  if channel < 0 then none else maxLens[channel.toNat]?

/-- `modify_queried_filename`, of a name that is changed in its place. Thirty characters are copied
from behind the length, which has to be there and to end within them. -/
def modifyQueriedFilename (maxLens : List Int) (name : Text) : Option (Int × Text) :=
  match strstr ['_', 'C'] name with
  | none => some (-2, name)
  | some lm =>
    match getHdch maxLens (atoi lm) with
    | none => some (-1, name)
    | some cutLen =>
      match strstr ['_', 'L'] name with
      | none => some (-1, name)
      | some lp =>
        let lk := (lp.drop 2).dropWhile fun char => decide (char ≠ '_')
        if lk = [] ∨ 30 ≤ lk.length then none
        else some (0, name.take (name.length - lp.length + 2) ++ printDecimal 2 cutLen ++ lk)

/-- `is_disk_error`. It compares with `EIO` and `EACCES`, and assigns `EBUSY` and `EROFS` where it
should compare. -/
def isDiskError (error : Int) : Bool :=
  decide (error = 5) || decide (error = 13) || decide ((16 : Int) ≠ 0) || decide ((30 : Int) ≠ 0)

/-- `fix_disk`: whether it ends the program, to have the disk repaired or left alone. -/
def fixDisk (around : Around) : Bool :=
  around.embeded && decide (around.ideFlag ≠ 0) && isDiskError around.error

namespace HdFile

/-- The name of the finished file, if one can be made. There is no result where what is read or
copied is not there. -/
def newname (around : Around) (hd : HdFile) : Option (Option Text) :=
  match filename2finfo around.mktime hd.filename around.stack with
  | none => none
  | some (ret, finfo) =>
    if ret < 0 then some none
    else
      match finfo2filename around.localtime { finfo with len := hd.filelen } with
      | none => some none
      | some name =>
        let locked :=
          if hd.state = 2 ∨ finfo.trig ≠ 0 ∨ finfo.remote = 1 then lockFilename name else name
        if hd.queryflag = 1 then
          (modifyQueriedFilename around.maxLens locked).map fun modified => some modified.2
        else some (some locked)

/-- The last lines of `close_record_file`. -/
def reset (hd : HdFile) : HdFile :=
  { hd with filename := [], cutflag := 0, filelen := 0, aviinfo := none }

/-- `close_record_file`, with what it returns. There is no result where the program ends. -/
def closeRecordFile (around : Around) (hd : HdFile) : Option (Int × HdFile) :=
  if hd.filename = [] then some (0, hd)
  else
    match hd.aviinfo with
    | none => some (0, hd)
    | some fdes =>
      if 0 < fdes then
        match hd.newname around with
        | none => none
        | some none => some (0, hd.reset)
        | some (some name) =>
          let queried := if hd.queryflag = 1 then 0 else hd.queryflag
          if around.renameInPartition hd.partition hd.filename name < 0 then
            if fixDisk around then none
            else some (-1, { hd with aviinfo := none, queryflag := queried })
          else some (0, { hd with queryflag := queried }.reset)
      else some (0, hd.reset)

/-- `make_file_name`. The partition is copied as a format without directives. -/
def makeFileName (around : Around) (ctime : Int) (hd : HdFile) : Option Text :=
  finfo2filename around.localtime
    { around.stack with
      stime := ctime
      channel := hd.channel
      type := hd.state
      len := 0
      trig := hd.trig
      remote := hd.remoteTrigged
      partition := hd.partition }

/-- `create_record_file`, and the thread stores what it returns. There is no result where the
program ends. -/
def createRecordFile (around : Around) (ctime dirs : Int) (opened : Option Int) (hd : HdFile) :
    Option HdFile :=
  match hd.makeFileName around ctime with
  | none => some { hd with aviinfo := none }
  | some name =>
    if dirs < 0 ∨ opened = none then
      if fixDisk around then none
      else some { hd with filename := recordingName name, aviinfo := none }
    else some { hd with filename := recordingName name, aviinfo := opened }

/-- The test of the recording thread whether it closes its file. -/
def closeflag (hd : HdFile) (state newstate : Int) : Bool :=
  decide (hd.cutflag ≠ 0) || decide (state ≠ newstate ∧ state ≠ 0)

/-! ### What is asked of the end of a file -/

/-- Nothing is left of a file. -/
structure Closed (hd : HdFile) : Prop where
  aviinfo : hd.aviinfo = none
  filename : hd.filename = []
  cutflag : hd.cutflag = 0
  filelen : hd.filelen = 0

/-- The next file starts with length 0, and is not closed while the state stays. -/
def StartsAnew (hd : HdFile) : Prop :=
  ∀ (later : Around) (ctime dirs : Int) (opened : Option Int) (created : HdFile),
    hd.createRecordFile later ctime dirs opened = some created →
      created.filelen = 0 ∧ ∀ state, created.closeflag state state = false

/-- After the end of the file the channel is reset. -/
def Resets (around : Around) (hd : HdFile) : Prop :=
  ∀ ret next, hd.closeRecordFile around = some (ret, next) →
    (ret = 0 ∨ ret = -1) ∧ next.Closed ∧ next.StartsAnew

/-- The finished file has a name, it cannot be renamed to it, and the program goes on. -/
structure RenameFails (around : Around) (hd : HdFile) : Prop where
  refused : ∃ name, hd.newname around = some (some name) ∧
    around.renameInPartition hd.partition hd.filename name < 0
  goesOn : around.embeded = false ∨ around.ideFlag = 0

/-! ### Creating -/

variable {around : Around} {hd : HdFile}

/-- Whatever the error, the program ends where there is a disk in an embedded device. -/
theorem fixDisk_iff : fixDisk around = false ↔ around.embeded = false ∨ around.ideFlag = 0 := by
  have always : isDiskError around.error = true := by
    rw [isDiskError, decide_eq_true (by decide : (16 : Int) ≠ 0), Bool.or_true, Bool.true_or]
  rw [fixDisk, always, Bool.and_true, Bool.and_eq_false_iff, decide_eq_false_iff_not, not_not]

/-- Creating a file leaves the length and the cut as they are. -/
theorem createRecordFile_keeps {ctime dirs : Int} {opened : Option Int} {created : HdFile}
    (creates : hd.createRecordFile around ctime dirs opened = some created) :
    created.filelen = hd.filelen ∧ created.cutflag = hd.cutflag := by
  unfold createRecordFile at creates
  split at creates
  · cases creates
    exact ⟨rfl, rfl⟩
  · split at creates
    · split at creates
      · cases creates
      · cases creates
        exact ⟨rfl, rfl⟩
    · cases creates
      exact ⟨rfl, rfl⟩

/-- A file that is not to be cut is closed only when the state changes. -/
theorem closeflag_same (hd : HdFile) (state : Int) :
    hd.closeflag state state = false ↔ hd.cutflag = 0 := by
  unfold closeflag
  rw [Bool.or_eq_false_iff, decide_eq_false_iff_not, decide_eq_false_iff_not, not_not]
  exact and_iff_left fun changed => changed.1 rfl

theorem reset_closed (hd : HdFile) : hd.reset.Closed := ⟨rfl, rfl, rfl, rfl⟩

theorem Closed.startsAnew (closed : hd.Closed) : hd.StartsAnew := by
  intro later ctime dirs opened created creates
  obtain ⟨length, cut⟩ := createRecordFile_keeps creates
  refine ⟨length.trans closed.filelen, fun state => ?_⟩
  rw [closeflag_same, cut]
  exact closed.cutflag

/-! ### Closing -/

/-- What closing an open file does. -/
theorem closeRecordFile_cases {fdes ret : Int} {next : HdFile} (named : hd.filename ≠ [])
    (opened : hd.aviinfo = some fdes)
    (closed : hd.closeRecordFile around = some (ret, next)) :
    (ret = 0 ∧ ∃ queryflag, next = { hd with queryflag := queryflag }.reset) ∨
      (ret = -1 ∧ 0 < fdes ∧ hd.RenameFails around ∧
        ∃ queryflag, next = { hd with aviinfo := none, queryflag := queryflag }) := by
  unfold closeRecordFile at closed
  rw [if_neg named, opened] at closed
  simp only at closed
  split at closed
  · next positive =>
    split at closed
    · cases closed
    · cases closed
      exact Or.inl ⟨rfl, hd.queryflag, rfl⟩
    · next name made =>
      split at closed
      · next refused =>
        split at closed
        · cases closed
        · next goesOn =>
          cases closed
          have on := fixDisk_iff.mp (Bool.eq_false_iff.mpr goesOn)
          exact Or.inr ⟨rfl, positive, ⟨⟨name, made, refused⟩, on⟩, _, rfl⟩
      · cases closed
        exact Or.inl ⟨rfl, _, rfl⟩
  · cases closed
    exact Or.inl ⟨rfl, hd.queryflag, rfl⟩

/-- Where renaming fails, only the file is forgotten. -/
theorem closeRecordFile_failed {fdes : Int} (named : hd.filename ≠ [])
    (opened : hd.aviinfo = some fdes) (positive : 0 < fdes) (failed : hd.RenameFails around) :
    hd.closeRecordFile around = some (-1, { hd with
      aviinfo := none
      queryflag := if hd.queryflag = 1 then 0 else hd.queryflag }) := by
  obtain ⟨⟨name, made, negative⟩, goesOn⟩ := failed
  unfold closeRecordFile
  rw [if_neg named, opened]
  simp only
  rw [if_pos positive, made]
  simp only
  rw [if_pos negative, fixDisk_iff.mpr goesOn, if_neg Bool.false_ne_true]

/-- Closing an open file resets the channel exactly when the channel has the name of the file and
renaming does not fail. -/
theorem resets_iff {fdes : Int} (opened : hd.aviinfo = some fdes) :
    hd.Resets around ↔ hd.filename ≠ [] ∧ ¬(0 < fdes ∧ hd.RenameFails around) := by
  constructor
  · intro resets
    have named : hd.filename ≠ [] := by
      intro empty
      have nothing : hd.closeRecordFile around = some (0, hd) := by
        unfold closeRecordFile
        rw [if_pos empty]
      have forgotten := (resets 0 hd nothing).2.1.aviinfo
      rw [opened] at forgotten
      cases forgotten
    refine ⟨named, fun ⟨positive, failed⟩ => ?_⟩
    have left := resets _ _ (closeRecordFile_failed named opened positive failed)
    exact named left.2.1.filename
  · rintro ⟨named, renames⟩ ret next closed
    rcases closeRecordFile_cases named opened closed with
      ⟨returned, queryflag, rfl⟩ | ⟨_, positive, failed, _⟩
    · have done := reset_closed { hd with queryflag := queryflag }
      exact ⟨Or.inl returned, done, done.startsAnew⟩
    · exact absurd ⟨positive, failed⟩ renames

/-! ### A file that is gone -/

/-- `fileindex_rename_in_partition`, of the index of the partition. -/
def renameIn (mktime : Tm → Int) (stack : FileInfo) (index : Index) (_ oldname newname : Text) :
    Int :=
  (index.rename mktime stack oldname newname true).1

/-- Renaming fails when the file is not there any more. -/
theorem renameIn_neg_iff {mktime : Tm → Int} {stack : FileInfo} {index : Index}
    {partition oldname newname : Text} :
    renameIn mktime stack index partition oldname newname < 0 ↔ oldname ∉ index.files := by
  unfold renameIn Index.rename
  split
  · next present => exact iff_of_false (lt_irrefl 0) (not_not.mpr present)
  · next gone => exact iff_of_true (by decide : (-1 : Int) < 0) gone

section Recorded

variable {info : FileInfo} {tm : Tm}

/-- A recorded file that was not queried gets its new name. -/
theorem newname_recorded (nameable : Nameable around.localtime info) (dated : Dated tm)
    (time : around.mktime tm = info.stime)
    (recorded : hd.filename = nameWith info tm recordingFileExt) (unqueried : hd.queryflag ≠ 1) :
    ∃ name, hd.newname around = some (some name) := by
  obtain ⟨stamp, found, _⟩ := nameable.year
  have read : filename2finfo around.mktime (nameWith info tm recordingFileExt) around.stack =
      some (0, _) := filename2finfo_nameWith nameable dated time (Or.inr rfl)
  unfold newname
  rw [recorded, read]
  simp only [readBack, finfo2filename, found, Option.map_some]
  rw [if_neg (by decide), if_neg unqueried]
  exact ⟨_, rfl⟩

/-- A recorded file that was not queried cannot be renamed exactly when it is gone. -/
theorem renameFails_iff_gone {index : Index} (nameable : Nameable around.localtime info)
    (dated : Dated tm) (time : around.mktime tm = info.stime)
    (recorded : hd.filename = nameWith info tm recordingFileExt) (unqueried : hd.queryflag ≠ 1)
    (indexed : around.renameInPartition = renameIn around.mktime around.stack index)
    (goesOn : around.embeded = false ∨ around.ideFlag = 0) :
    hd.RenameFails around ↔ hd.filename ∉ index.files := by
  obtain ⟨name, made⟩ := newname_recorded nameable dated time recorded unqueried
  constructor
  · rintro ⟨⟨_, _, refused⟩, _⟩
    rw [indexed] at refused
    exact renameIn_neg_iff.mp refused
  · intro gone
    refine ⟨⟨name, made, ?_⟩, goesOn⟩
    rw [indexed]
    exact renameIn_neg_iff.mpr gone

end Recorded

theorem nameable_afternoon : Nameable firstDay { Index.blankInfo with stime := 51904 } :=
  { Index.nameable_blankInfo with year := ⟨⟨70, 0, 1, 14, 25, 4⟩, by decide, by decide⟩ }

/-- A channel that has recorded seventy seconds, and is to cut its file. -/
def seventySeconds : HdFile :=
  ⟨0, 1, Index.recording, 70, 0, 1, 0, 0, Index.blankInfo.partition, some 3⟩

/-- A build for a desk computer, whose partition has an index. -/
def desktop (index : Index) : Around where
  localtime := firstDay
  mktime := secondOfDay
  stack := Index.blankInfo
  maxLens := []
  renameInPartition := renameIn secondOfDay Index.blankInfo index
  error := 2
  embeded := false
  ideFlag := 1

theorem seventySeconds_fails_iff (index : Index) :
    seventySeconds.RenameFails (desktop index) ↔ Index.recording ∉ index.files :=
  renameFails_iff_gone nameable_afternoon Index.dated_firstDay rfl rfl (by decide) rfl
    (Or.inl rfl)

theorem resets_iff_present :
    seventySeconds.aviinfo = some 3 ∧ seventySeconds.Resets (desktop Index.single) := by
  have opened : seventySeconds.aviinfo = some 3 := rfl
  refine ⟨opened, (resets_iff opened).mpr ⟨?_, fun ⟨_, failed⟩ => ?_⟩⟩
  · exact List.append_ne_nil_of_right_ne_nil _ (List.cons_ne_nil _ _)
  · exact (seventySeconds_fails_iff Index.single).mp failed
      (Finset.mem_singleton_self Index.recording)

/-- The file was deleted while it was recorded: the length and the cut stay for the next file. -/
theorem deleted_not_reset :
    seventySeconds.aviinfo = some 3 ∧ ¬seventySeconds.Resets (desktop ⟨[], ∅⟩) := by
  have opened : seventySeconds.aviinfo = some 3 := rfl
  have named : seventySeconds.filename ≠ [] :=
    List.append_ne_nil_of_right_ne_nil _ (List.cons_ne_nil _ _)
  refine ⟨opened, fun resets => ?_⟩
  have failed := (seventySeconds_fails_iff ⟨[], ∅⟩).mpr (Finset.notMem_empty _)
  have left := resets _ _ (closeRecordFile_failed named opened (by decide) failed)
  have cut : (1 : Int) = 0 := left.2.1.cutflag
  exact absurd cut (by decide)

/-! ### The channel and its file -/

/-- The channel as the recording thread sees it. -/
structure Shows (hd : HdFile) (enc : HdEnc) : Prop where
  aviinfo : hd.aviinfo = none ↔ enc.aviinfo = none
  cutflag : hd.cutflag ≠ 0 ↔ enc.cutflag = true
  filelen : hd.filelen = enc.filelen

/-- The recording thread sees its file closed as it is closed here, with what is returned. -/
theorem Shows.closeRecordFile {enc : HdEnc} (shows : hd.Shows enc) (named : hd.filename ≠ [])
    {ret : Int} {next : HdFile}
    (closed : hd.closeRecordFile around = some (ret, next)) :
    next.Shows (enc.closeRecordFile (decide (ret = 0))) := by
  cases opened : hd.aviinfo with
  | none =>
    unfold HdFile.closeRecordFile at closed
    rw [if_neg named, opened] at closed
    cases closed
    unfold HdEnc.closeRecordFile
    rw [shows.aviinfo.mp opened]
    exact shows
  | some fdes =>
    obtain ⟨flags, seen⟩ : ∃ flags, enc.aviinfo = some flags := by
      refine Option.ne_none_iff_exists'.mp fun unseen => ?_
      rw [shows.aviinfo.mpr unseen] at opened
      cases opened
    unfold HdEnc.closeRecordFile
    rw [seen]
    simp only
    rcases closeRecordFile_cases named opened closed with
      ⟨rfl, queryflag, rfl⟩ | ⟨rfl, _, _, queryflag, rfl⟩
    · rw [if_pos (by decide)]
      exact ⟨iff_of_true rfl rfl, iff_of_false (not_not.mpr rfl) Bool.false_ne_true, rfl⟩
    · rw [if_neg (by decide)]
      exact ⟨iff_of_true rfl rfl, shows.cutflag, shows.filelen⟩

end HdFile

end ExmOnvif.HdModule
