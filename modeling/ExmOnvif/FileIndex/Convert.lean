/-
This file models how a recording that was interrupted is repaired at the next start, and
proves that the recording is found under exactly one name afterwards, in the index as on
the disk.

The file first gets a name that says that its end is missing. If it can be repaired it
gets its final name, with its length in it. Each of the two renamings adds a row first,
and takes out the old row or, if the file could not be renamed, the new one.
-/

import ExmOnvif.FileIndex.Index

namespace ExmOnvif.FileIndex

open Library HdModule

/-! ### The repair -/

/-- `OLD_FILE_EXT`. -/
def oldFileExt : Text := ['_', 'O', 'L', 'D', '.', 'A', 'V', 'I']

/-- The end of the name of a file with a program stream. -/
def psExt : Text := ['-', 'p', 's', '.', 'm', 'p', 'g']

/-- What the calls of a repair come to: whether the first `rename` succeeds, what `stat` returns
and the size it finds, the free space, what `avi_fix_bad_file` returns, and whether the second
`rename` succeeds. -/
structure Repair where
  renamed : Bool
  stat : Int
  stSize : Int
  freesize : Int
  fixed : Int
  finished : Bool

/-- Under which of three names a repair leaves the recording, by its length. -/
def Repair.leaves (calls : Repair) (time : Int) (recording old final : Text) : Text :=
  if calls.renamed = false then recording
  else if calls.stat < 0 ∨ calls.freesize < calls.stSize >>> (20 : Nat) ∨ time < 0 ∨
      calls.finished = false then old
  else final

/-- The length of the recording; the program streams are not repaired. -/
def repairTime (oldaviname : Text) (calls : Repair) : Int :=
  if strstr ['p', 's'] oldaviname ≠ none then 22 else calls.fixed

/-- The name with the length of the recording. It is not there without a field for it. A name
without another field behind that, or with too much behind it, has no result. -/
def finalName (aviname : Text) (time : Int) : Option (Option Text) :=
  match aviname.dropWhile fun char => decide (char ≠ 'L') with
  | [] => some none
  | letter :: lp =>
    match lp.dropWhile fun char => decide (char ≠ '_') with
    | [] => none
    | lk =>
      if lk.length < 40 then
        some (some (aviname.takeWhile (fun char => decide (char ≠ 'L')) ++
          letter :: (printDecimal 2 time ++ lk)))
      else none

namespace Index

section Calls

variable (mktime : Tm → Int) (stackAt : Nat → FileInfo)

/-- `convert_ing_file` from the names on, with the name it gives. -/
def repair (index : Index) (ingfile oldaviname aviname : Text) (calls : Repair) :
    Option (Index × Option Text) :=
  let added := index.add mktime (stackAt 0) oldaviname
  if calls.renamed = false then some (added.delFile oldaviname, none)
  else
    let old := (added.move ingfile oldaviname true).delFile ingfile
    if calls.stat < 0 then some (old, none)
    else if calls.freesize < calls.stSize >>> (20 : Nat) then some (old, none)
    else
      let time := repairTime oldaviname calls
      if 0 ≤ time then
        match finalName aviname time with
        | none => none
        | some none => some (old, none)
        | some (some finalname) =>
          let final := old.add mktime (stackAt 1) finalname
          if calls.finished then
            some ((final.move oldaviname finalname true).delFile oldaviname, some finalname)
          else some (final.delFile finalname, some finalname)
      else some (old, some oldaviname)

/-- `convert_ing_file`. -/
def convertIngFile (index : Index) (ingfile : Text) (calls : Repair) :
    Option (Index × Option Text) :=
  if ingfile ∉ index.files then some (index.delFile ingfile, none)
  else
    match strstr recordingFileExt ingfile with
    | none => some (index, none)
    | some lp =>
      let front := ingfile.take (ingfile.length - lp.length)
      if 4 < lp.length then
        index.repair mktime stackAt (front ++ (recordingFileExt ++ psExt))
          (front ++ (['_', 'O', 'L', 'D'] ++ psExt)) (front ++ psExt) calls
      else
        index.repair mktime stackAt (front ++ recordingFileExt) (front ++ oldFileExt)
          (front ++ imgFileExt) calls

end Calls

end Index

/-! ### The names of a recording -/

/-- A file with frames, or a program stream. -/
inductive Form where
  | avi
  | ps
deriving DecidableEq, Repr

namespace Form

/-- The end of the name while the file is recorded. -/
def recording : Form → Text
  | .avi => recordingFileExt
  | .ps => recordingFileExt ++ psExt

/-- The end of the name of a file whose own end is missing. -/
def old : Form → Text
  | .avi => oldFileExt
  | .ps => ['_', 'O', 'L', 'D'] ++ psExt

/-- The end of the name of a finished file. -/
def finished : Form → Text
  | .avi => imgFileExt
  | .ps => psExt

/-- The length that goes into its name. -/
def time (form : Form) (calls : Repair) : Int :=
  match form with
  | .avi => calls.fixed
  | .ps => 22

end Form

section Names

variable {localtime : Int → Option Tm} {info : FileInfo} {tm : Tm} {form : Form}

/-- The part of a name between the partition and the length. -/
def dirs (info : FileInfo) (tm : Tm) : Text :=
  '/' :: printDecimal 4 (1900 + tm.year) ++ '/' :: printDecimal 2 (tm.mon + 1) ++
    '/' :: printDecimal 2 tm.mday ++ '/' :: printDecimal 2 tm.hour ++ ['/', 'H', 'Q'] ++
    '_' :: 'C' :: printDecimal 2 info.channel ++ '_' :: 'D' :: stamp tm ++ ['_']

/-- The part of a name behind the length. -/
def behindLength (info : FileInfo) (ext : Text) : Text :=
  'T' :: printHex 2 info.trig ++ (marks info ++ ext)

theorem nameWith_split (info : FileInfo) (tm : Tm) (ext : Text) :
    nameWith info tm ext = info.partition ++ (dirs info tm ++
      'L' :: (printDecimal 2 info.len ++ '_' :: behindLength info ext)) := by
  simp only [nameWith, folder, fields, dirs, behindLength, List.append_assoc, List.cons_append,
    List.nil_append]

/-- A character between the partition and the length. -/
def Inner (char : Char) : Prop :=
  char.isDigit = true ∨ char ∈ ['/', 'H', 'Q', '_', 'C', 'D']

theorem Inner.ne {char other : Char} (inner : Inner char) (noDigit : other.isDigit = false)
    (noLetter : other ∉ ['/', 'H', 'Q', '_', 'C', 'D']) : char ≠ other := by
  rintro rfl
  rcases inner with digit | letter
  · rw [digit] at noDigit
    cases noDigit
  · exact noLetter letter

theorem inner_dirs (nameable : Nameable localtime info) (dated : Dated tm) :
    ∀ char ∈ dirs info tm, Inner char := by
  have year := dated.year
  have mon := dated.proper.mon
  have mday := dated.proper.mday
  have hour := dated.proper.hour
  have min := dated.proper.min
  have sec := dated.proper.sec
  have printed : ∀ {width number}, 0 ≤ number → ∀ char ∈ printDecimal width number, Inner char :=
    fun nonneg _ member => Or.inl (isDigit_of_mem_printDecimal nonneg member)
  have letter : ∀ char ∈ ['/', 'H', 'Q', '_', 'C', 'D'], Inner char := fun _ => Or.inr
  have slash := letter '/' (by decide)
  have underscore := letter '_' (by decide)
  have stamped : ∀ char ∈ stamp tm, Inner char := by
    unfold stamp
    simp only [List.forall_mem_append]
    exact ⟨⟨⟨⟨⟨printed (by omega), printed (by omega)⟩, printed (by omega)⟩, printed (by omega)⟩,
      printed (by omega)⟩, printed (by omega)⟩
  unfold dirs
  simp only [List.forall_mem_append, List.forall_mem_cons]
  exact ⟨⟨⟨⟨⟨⟨⟨⟨slash, printed (by omega)⟩, slash, printed (by omega)⟩, slash, printed (by omega)⟩,
    slash, printed (by omega)⟩, slash, letter 'H' (by decide), letter 'Q' (by decide),
    List.forall_mem_nil _⟩, underscore, letter 'C' (by decide), printed nameable.channel.1⟩,
    underscore, letter 'D' (by decide), stamped⟩, underscore, List.forall_mem_nil _⟩

/-- The capital letters, the marks and the ends of the names have no `p` in them. -/
theorem no_p_behindLength {ext : Text} (clear : 'p' ∉ ext) : 'p' ∉ behindLength info ext := by
  have inTrig : 'p' ∉ printHex 2 info.trig := by
    intro member
    unfold printHex at member
    obtain ⟨lower, inside, same⟩ := List.mem_map.mp member
    rcases mem_padded inside with digit | rfl
    · obtain ⟨value, small, rfl⟩ := mem_toDigits (by decide) digit
      have upper : ∀ value < 16, (Nat.digitChar value).toUpper ≠ 'p' := by decide
      exact upper value small same
    · exact absurd same (by decide)
  have inMarks : 'p' ∉ marks info := by
    intro mark
    rcases mem_marks mark with same | same <;> cases same
  unfold behindLength
  simp only [List.mem_append, List.mem_cons, not_or]
  exact ⟨⟨by decide, inTrig⟩, inMarks, clear⟩

/-- There is no `ps` in the name of a file with frames. -/
theorem no_ps (nameable : Nameable localtime info) (dated : Dated tm) :
    strstr ['p', 's'] (nameWith info tm oldFileExt) = none := by
  obtain ⟨letter, digit, _, isDigit, named⟩ := nameable.partition
  have noDigit : ∀ char : Char, char.isDigit = false → digit ≠ char := by
    rintro char foreign rfl
    rw [isDigit] at foreign
    cases foreign
  have whole : nameWith info tm oldFileExt =
      ['/', 'h', 'q', 'd', 'a', 't', 'a', '/', 's', 'd', letter] ++ digit :: (dirs info tm ++
        'L' :: (printDecimal 2 info.len ++ '_' :: behindLength info oldFileExt)) := by
    rw [nameWith_split, named]
    rfl
  have front : strstr ['p', 's'] ['/', 'h', 'q', 'd', 'a', 't', 'a', '/', 's', 'd', letter] =
      none := by
    have clear : ∀ char ∈ ['/', 'h', 'q', 'd', 'a', 't', 'a', '/', 's', 'd'], char ≠ 'p' :=
      List.all_iff_forall_prop.mp (by decide)
    have short : ¬['p', 's'] <+: [letter] := fun pair =>
      absurd pair.length_le (by decide : ¬2 ≤ 1)
    have skipped := @strstr_skip_first Char ['s'] _ 'p' _ [letter] clear
    refine skipped.trans ?_
    rw [strstr, if_neg short, strstr_nil (List.cons_ne_nil _ _)]
  -- In front of the digit the pair would have to end, and behind it there is no `p`.
  rw [whole, strstr_marked (by
    simp only [List.mem_cons, List.not_mem_nil, or_false, not_or]
    exact ⟨noDigit 'p' (by decide), noDigit 's' (by decide)⟩), front]
  have behind : ∀ char ∈ dirs info tm ++
      'L' :: (printDecimal 2 info.len ++ '_' :: behindLength info oldFileExt), char ≠ 'p' := by
    simp only [List.forall_mem_append, List.forall_mem_cons]
    refine ⟨fun char member => (inner_dirs nameable dated char member).ne (by decide) (by decide),
      by decide, fun char member => ?_, by decide, fun char member same => ?_⟩
    · have inner : Inner char := Or.inl (isDigit_of_mem_printDecimal nameable.len.1 member)
      exact inner.ne (by decide) (by decide)
    · exact no_p_behindLength (by decide) (same ▸ member)
  have skipped := @strstr_skip_first Char ['s'] _ 'p' _ [] behind
  rw [List.append_nil] at skipped
  exact skipped.trans (strstr_nil (List.cons_ne_nil _ _))

/-- A file with frames is repaired, and a program stream is not. -/
theorem repairTime_nameWith (nameable : Nameable localtime info) (dated : Dated tm)
    (calls : Repair) :
    repairTime (nameWith info tm form.old) calls = form.time calls := by
  cases form with
  | avi => exact if_neg (not_not.mpr (no_ps nameable dated))
  | ps =>
    have found := @strstr_ne_none Char ['p', 's'] _ (nameWith info tm ['_', 'O', 'L', 'D', '-'])
      ['.', 'm', 'p', 'g']
    have whole : nameWith info tm Form.ps.old = nameWith info tm ['_', 'O', 'L', 'D', '-'] ++
        (['p', 's'] ++ ['.', 'm', 'p', 'g']) := by
      simp only [nameWith, List.append_assoc]
      rfl
    rw [← whole] at found
    exact if_pos found

/-- The final name of a recording. -/
theorem finalName_nameWith {ext : Text} (nameable : Nameable localtime info) (dated : Dated tm)
    (noLength : 'L' ∉ info.partition) (short : ext.length < 10) (time : Int) :
    finalName (nameWith info tm ext) time =
      some (some (nameWith { info with len := time } tm ext)) := by
  have first : 'L' ∉ info.partition ++ dirs info tm := by
    rw [List.mem_append, not_or]
    exact ⟨noLength, fun member =>
      (inner_dirs nameable dated 'L' member).ne (by decide) (by decide) rfl⟩
  have number : '_' ∉ printDecimal 2 info.len := fun member =>
    absurd (isDigit_of_mem_printDecimal nameable.len.1 member) (by decide)
  have length : ('_' :: behindLength info ext).length < 40 := by
    have trig := printHex_length_le nameable.trig.1 nameable.trig.2
    have marked := marks_length_le info
    unfold behindLength
    simp only [List.length_append, List.length_cons]
    omega
  unfold finalName
  rw [nameWith_split, ← List.append_assoc, dropWhile_mark first]
  simp only
  rw [dropWhile_mark number]
  simp only
  rw [if_pos length, takeWhile_mark first, nameWith_split, List.append_assoc]
  rfl

/-- The name with the end missing is not the final one. -/
theorem final_ne_old (nonneg : 0 ≤ info.len) {time : Int} (some : 0 ≤ time) :
    nameWith { info with len := time } tm form.finished ≠ nameWith info tm form.old := by
  intro same
  rw [nameWith_split, nameWith_split] at same
  have behind := (List.cons.inj (List.append_cancel_left (List.append_cancel_left same))).2
  have clear : ∀ {number : Int}, 0 ≤ number → ∀ char ∈ printDecimal 2 number, char ∉ ['_'] := by
    intro number nonneg char member mark
    rw [List.mem_singleton] at mark
    have digit := isDigit_of_mem_printDecimal nonneg member
    rw [mark] at digit
    exact absurd digit (by decide)
  have numbers := @eq_of_marked Char ['_'] _ _ _ _ (List.cons_ne_nil _ _) (clear some)
    (clear nonneg) behind
  -- With the numbers the rests are the same too, and one of them is longer.
  have length := congrArg List.length behind
  have longer : form.finished.length < form.old.length := by cases form <;> decide
  have same : marks { info with len := time } = marks info := rfl
  simp only [behindLength, List.length_append, List.length_cons, numbers, same] at length
  omega

end Names

namespace Index

/-! ### Being there under one name -/

/-- Of some names exactly one is that of a file, and it has a row, of which there are not more than
a number; the others have none. No other row and no other file has changed. -/
structure HeldUnder (before after : Index) (names : List Text) (most : Nat) (name : Text) :
    Prop where
  known : name ∈ names
  file : ∀ other ∈ names, other ∈ after.files ↔ other = name
  row : 0 < after.listed name ∧ after.listed name ≤ most
  noRow : ∀ other ∈ names, other ≠ name → after.listed other = 0
  rows : after.rows.filter (fun row => decide (row.name ∉ names)) =
    before.rows.filter fun row => decide (row.name ∉ names)
  files : ∀ other, other ∉ names → (other ∈ after.files ↔ other ∈ before.files)

variable {mktime : Tm → Int} {stack : FileInfo} {before after : Index} {names : List Text}
  {most : Nat} {name next : Text}

theorem listed_move (index : Index) (oldname newname : Text) (renamed : Bool) (name : Text) :
    (index.move oldname newname renamed).listed name = index.listed name := by
  unfold move
  split <;> rfl

/-- The rows of other names stay. -/
theorem rows_add (known : next ∈ names) :
    (after.add mktime stack next).rows.filter (fun row => decide (row.name ∉ names)) =
      after.rows.filter fun row => decide (row.name ∉ names) := by
  have out : decide ((rowOf mktime stack next).name ∉ names) = false :=
    decide_eq_false (not_not.mpr known)
  show (after.rows ++ [rowOf mktime stack next]).filter _ = _
  rw [List.filter_append, List.filter_singleton, out, cond_false, List.append_nil]

theorem rows_delFile (known : next ∈ names) :
    (after.delFile next).rows.filter (fun row => decide (row.name ∉ names)) =
      after.rows.filter fun row => decide (row.name ∉ names) := by
  show (after.rows.filter _).filter _ = _
  rw [List.filter_filter]
  refine List.filter_congr fun row _ => ?_
  by_cases inside : row.name ∈ names
  · rw [decide_eq_false (not_not.mpr inside), Bool.false_and]
  · have other : row.name ≠ next := fun same => inside (same ▸ known)
    rw [decide_eq_true inside, decide_eq_true other, Bool.true_and]

/-- A name that gets a row and loses it again. -/
theorem HeldUnder.undone (held : HeldUnder before after names most name) (known : next ∈ names)
    (different : next ≠ name) :
    HeldUnder before ((after.add mktime stack next).delFile next) names most name where
  known := held.known
  file := held.file
  row := by
    rw [listed_delFile, if_pos different.symm, listed_add, if_neg different]
    exact held.row
  noRow := by
    intro other member apart
    rw [listed_delFile, listed_add]
    by_cases same : other = next
    · rw [if_neg (not_not.mpr same)]
    · rw [if_pos same, if_neg (Ne.symm same)]
      exact held.noRow other member apart
  rows := by rw [rows_delFile known, rows_add known, held.rows]
  files := held.files

/-- A name that takes the place of another. -/
theorem HeldUnder.moved (held : HeldUnder before after names most name) (known : next ∈ names)
    (different : next ≠ name) :
    HeldUnder before (((after.add mktime stack next).move name next true).delFile name) names most
      next where
  known := known
  file := by
    intro other member
    show other ∈ insert next (after.files.erase name) ↔ other = next
    rw [Finset.mem_insert, Finset.mem_erase, held.file other member]
    exact or_iff_left fun both => both.1 both.2
  row := by
    have none := held.noRow next known different
    have some := held.row
    rw [listed_delFile, if_pos different, listed_move, listed_add, if_pos rfl, none]
    exact ⟨Nat.succ_pos 0, some.1.trans_le some.2⟩
  noRow := by
    intro other member apart
    rw [listed_delFile]
    by_cases same : other = name
    · rw [if_neg (not_not.mpr same)]
    · rw [if_pos same, listed_move, listed_add, if_neg (Ne.symm apart)]
      exact held.noRow other member same
  rows := by
    rw [rows_delFile held.known]
    exact (rows_add known).trans held.rows
  files := by
    intro other foreign
    show other ∈ insert next (after.files.erase name) ↔ _
    have apart : other ≠ next := fun same => foreign (same ▸ known)
    have elsewhere : other ≠ name := fun same => foreign (same ▸ held.known)
    rw [Finset.mem_insert, Finset.mem_erase, ← held.files other foreign]
    exact ⟨fun either => (either.resolve_left apart).2, fun inside => Or.inr ⟨elsewhere, inside⟩⟩

/-- However the calls of a repair come out, the recording is there under one name. -/
theorem HeldUnder.repair {ingfile oldaviname aviname final : Text} {calls : Repair}
    {stackAt : Nat → FileInfo} (held : HeldUnder before after [ingfile, oldaviname, final] most
      ingfile)
    (old : oldaviname ≠ ingfile)
    (last : 0 ≤ repairTime oldaviname calls →
      finalName aviname (repairTime oldaviname calls) = some (some final) ∧ final ≠ oldaviname) :
    ∃ index finalname, after.repair mktime stackAt ingfile oldaviname aviname calls =
        some (index, finalname) ∧
      HeldUnder before index [ingfile, oldaviname, final] most
        (calls.leaves (repairTime oldaviname calls) ingfile oldaviname final) := by
  have oldKnown : oldaviname ∈ [ingfile, oldaviname, final] :=
    List.mem_cons_of_mem _ List.mem_cons_self
  have finalKnown : final ∈ [ingfile, oldaviname, final] :=
    List.mem_cons_of_mem _ (List.mem_cons_of_mem _ List.mem_cons_self)
  have moved := @HeldUnder.moved mktime (stackAt 0) _ _ _ _ _ _ held oldKnown old
  unfold Index.repair Repair.leaves
  simp only
  split
  · exact ⟨_, _, rfl, held.undone oldKnown old⟩
  · split
    · next unknown =>
      rw [if_pos (Or.inl unknown)]
      exact ⟨_, _, rfl, moved⟩
    · next known =>
      split
      · next full =>
        rw [if_pos (Or.inr (Or.inl full))]
        exact ⟨_, _, rfl, moved⟩
      · next room =>
        split
        · next repaired =>
          obtain ⟨named, different⟩ := last repaired
          rw [named]
          simp only
          split
          · next done =>
            have finished : ¬(calls.stat < 0 ∨ calls.freesize < calls.stSize >>> (20 : Nat) ∨
                repairTime oldaviname calls < 0 ∨ calls.finished = false) := by
              rw [not_or, not_or, not_or, done]
              exact ⟨known, room, Int.not_lt.mpr repaired, Bool.noConfusion⟩
            rw [if_neg finished]
            exact ⟨_, _, rfl, moved.moved finalKnown different⟩
          · next failed =>
            rw [if_pos (Or.inr (Or.inr (Or.inr (Bool.eq_false_of_not_eq_true failed))))]
            exact ⟨_, _, rfl, moved.undone finalKnown different⟩
        · next broken =>
          rw [if_pos (Or.inr (Or.inr (Or.inl (Int.not_le.mp broken))))]
          exact ⟨_, _, rfl, moved⟩

/-! ### The repair of a recording -/

variable {localtime : Int → Option Tm} {info : FileInfo} {tm : Tm} {form : Form}
  {stackAt : Nat → FileInfo} {index : Index}

/-- The names of a recording are made of its name. -/
theorem convertIngFile_nameWith (nameable : Nameable localtime info) (dated : Dated tm)
    (exists_ : nameWith info tm form.recording ∈ index.files) (calls : Repair) :
    index.convertIngFile mktime stackAt (nameWith info tm form.recording) calls =
      index.repair mktime stackAt (nameWith info tm form.recording) (nameWith info tm form.old)
        (nameWith info tm form.finished) calls := by
  have whole : ∀ ext, nameWith info tm ext = nameWith info tm [] ++ ext := by
    intro ext
    simp only [nameWith, List.append_nil]
  have found : strstr recordingFileExt (nameWith info tm form.recording) =
      some form.recording := by
    have skipped := @strstr_nameWith localtime info tm form.recording ['I', 'N', 'G'] nameable dated
    refine skipped.trans (strstr_here ?_)
    cases form with
    | avi => exact List.prefix_refl _
    | ps => exact List.prefix_append _ _
  have front : (nameWith info tm form.recording).take
      ((nameWith info tm form.recording).length - form.recording.length) =
        nameWith info tm [] := by
    rw [whole, List.length_append, Nat.add_sub_cancel, List.take_left]
  unfold convertIngFile
  rw [if_neg (not_not.mpr exists_), found]
  simp only
  rw [front]
  cases form with
  | avi =>
    rw [if_neg (by decide), ← whole, ← whole, ← whole]
    rfl
  | ps =>
    rw [if_pos (by decide), ← whole, ← whole, ← whole]
    rfl

/-- For every recording with a row and every outcome of the calls: the recording is there under
exactly one of its three names afterwards, which alone has a row, and no other row has changed. It
keeps its name if it can not be renamed at first, gets the last one if everything succeeds, and
otherwise has the one between them. -/
theorem convert_recovers (nameable : Nameable localtime info) (dated : Dated tm)
    (noLength : 'L' ∉ info.partition) (form : Form) (calls : Repair)
    (exists_ : nameWith info tm form.recording ∈ index.files)
    (row : 0 < index.listed (nameWith info tm form.recording))
    (old : nameWith info tm form.old ∉ index.files ∧
      index.listed (nameWith info tm form.old) = 0)
    (final : nameWith { info with len := form.time calls } tm form.finished ∉ index.files ∧
      index.listed (nameWith { info with len := form.time calls } tm form.finished) = 0) :
    ∃ after finalname,
      index.convertIngFile mktime stackAt (nameWith info tm form.recording) calls =
          some (after, finalname) ∧
        HeldUnder index after
          [nameWith info tm form.recording, nameWith info tm form.old,
            nameWith { info with len := form.time calls } tm form.finished]
          (index.listed (nameWith info tm form.recording))
          (calls.leaves (form.time calls) (nameWith info tm form.recording)
            (nameWith info tm form.old)
            (nameWith { info with len := form.time calls } tm form.finished)) := by
  have different : ∀ {name}, name ∉ index.files → name ≠ nameWith info tm form.recording :=
    fun absent same => absent (same ▸ exists_)
  have held : HeldUnder index index [nameWith info tm form.recording,
      nameWith info tm form.old, nameWith { info with len := form.time calls } tm form.finished]
      (index.listed (nameWith info tm form.recording)) (nameWith info tm form.recording) := by
    refine ⟨List.mem_cons_self, ?_, ⟨row, le_refl _⟩, ?_, rfl, fun _ _ => Iff.rfl⟩
    · simp only [List.forall_mem_cons]
      exact ⟨iff_of_true exists_ trivial, iff_of_false old.1 (different old.1),
        iff_of_false final.1 (different final.1), List.forall_mem_nil _⟩
    · simp only [List.forall_mem_cons]
      exact ⟨fun other => absurd rfl other, fun _ => old.2, fun _ => final.2,
        List.forall_mem_nil _⟩
  have time : repairTime (nameWith info tm form.old) calls = form.time calls :=
    repairTime_nameWith nameable dated calls
  have result := @HeldUnder.repair mktime _ _ _ _ _ (nameWith info tm form.finished) _ calls stackAt
    held (different old.1) (by
      rw [time]
      intro repaired
      exact ⟨finalName_nameWith nameable dated noLength (by cases form <;> decide) _,
        final_ne_old nameable.len.1 repaired⟩)
  rw [time] at result
  rw [convertIngFile_nameWith nameable dated exists_]
  exact result

theorem nameable_blankInfo : Nameable firstDay blankInfo :=
  ⟨⟨'a', '1', by decide, by decide, rfl⟩, by decide, by decide, by decide, by decide,
    ⟨⟨70, 0, 1, 0, 0, 0⟩, by decide, by decide⟩⟩

theorem dated_firstDay : Dated ⟨70, 0, 1, 14, 25, 4⟩ := by
  refine ⟨?_, by decide⟩
  constructor <;> decide

/-- A repair in which every call succeeds. -/
def repaired : Repair := ⟨true, 0, 0, 1, 30, true⟩

/-- The recording with its end missing. -/
def recordingOld : Text := nameWith blankInfo ⟨70, 0, 1, 14, 25, 4⟩ Form.avi.old

theorem convert_recovers_one_file : ∃ after finalname,
    single.convertIngFile secondOfDay (fun _ => blankInfo) recording repaired =
        some (after, finalname) ∧
      HeldUnder single after [recording, recordingOld, recorded] (single.listed recording)
        recorded := by
  have present : recording ∈ single.files := Finset.mem_singleton_self recording
  have counted := agrees_iff.mp single_agrees
  have free : ∀ name, name ≠ recording → name ∉ single.files ∧ single.listed name = 0 := by
    intro name other
    have absent : name ∉ single.files := fun member => other (Finset.mem_singleton.mp member)
    exact ⟨absent, (counted name).trans (if_neg absent)⟩
  have row : 0 < single.listed recording := by
    rw [counted, if_pos present]
    exact Nat.one_pos
  exact convert_recovers nameable_blankInfo dated_firstDay (by decide) .avi repaired present row
    (free recordingOld (by decide +kernel)) (free recorded (by decide +kernel))

end Index

end ExmOnvif.FileIndex
