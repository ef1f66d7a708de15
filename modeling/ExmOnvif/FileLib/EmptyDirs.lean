/-
This file is about the walk that the disk manager makes after it has deleted files: no
callback, and every directory that is found empty behind its entries is removed.

Whether a directory is empty is a count. It starts with the entries of the listing and goes
down by one for every entry that raised the shared flag, so that in the end it is the number
of entries that are left.
-/

import ExmOnvif.FileLib.FtwSort

namespace ExmOnvif.FileLib

/-! ### What is removed -/

mutual

/-- There is something in the tree that is no directory. -/
def Node.hasFile : Node → Bool
  | .file => true
  | .dir entries => entries.hasFile

/-- The same of a listing. -/
def Entries.hasFile : Entries → Bool
  | .nil => false
  | .cons _ node rest => node.hasFile || rest.hasFile

end

mutual

/-- The tree without the directories below its root that have no file in them. -/
def Node.pruned : Node → Node
  | .file => .file
  | .dir entries => .dir entries.pruned

/-- The same of a listing. -/
def Entries.pruned : Entries → Entries
  | .nil => .nil
  | .cons name node rest =>
    if node.hasFile then .cons name node.pruned rest.pruned else rest.pruned

end

mutual

/-- The number of directories on the longest way down. -/
def Node.levels : Node → Nat
  | .file => 0
  | .dir entries => entries.levels + 1

/-- The same of a listing. -/
def Entries.levels : Entries → Nat
  | .nil => 0
  | .cons _ node rest => max node.levels rest.levels

end

mutual

/-- Every path of the tree goes into the buffers. -/
def Node.Short : Node → Path → Prop
  | .file, path => path.length < bufferSize
  | .dir entries, path => path.length < bufferSize ∧ entries.Short path

/-- The same of a listing. -/
def Entries.Short : Entries → Path → Prop
  | .nil, _ => True
  | .cons name node rest, path => node.Short (path.child name) ∧ rest.Short path

end

/-- What a place below a node leads to. -/
def Node.kind : Node → Flag
  | .file => .ftwF
  | .dir _ => .ftwD

mutual

/-- Goes down by names. -/
def Node.find : Node → List Name → Option Node
  | node, [] => some node
  | .file, _ :: _ => none
  | .dir entries, name :: place => entries.find name place

/-- The same from a listing. -/
def Entries.find : Entries → Name → List Name → Option Node
  | .nil, _, _ => none
  | .cons next node rest, name, place =>
    if next = name then node.find place else rest.find name place

end

theorem Node.Short.length {node : Node} {path : Path} (short : node.Short path) :
    path.length < bufferSize := by
  cases node with
  | file => exact short
  | dir entries => exact short.1

@[simp] theorem pruned_kind (node : Node) : node.pruned.kind = node.kind := by
  cases node <;> rfl

/-! ### The walk removes them -/

/-- A walk without a callback, at a level. -/
def Walk.quiet (level : Int) : Walk := ⟨⟨false, false, 0, level⟩, []⟩

theorem pruned_count_le : ∀ entries : Entries, entries.pruned.count ≤ entries.count
  | .nil => Nat.le_refl 0
  | .cons _ node rest => by
    unfold Entries.pruned
    have fewer := pruned_count_le rest
    split
    · exact Nat.succ_le_succ fewer
    · exact Nat.le_succ_of_le fewer

/-- The count of a listing with the two entries that are always there, behind the removals. -/
theorem counted_left (entries : Entries) :
    (entries.count : Int) + 2 - (entries.count - entries.pruned.count : Nat) =
      entries.pruned.count + 2 := by
  have fewer := pruned_count_le entries
  omega

/-- A listing is empty behind the removals when it had no file. -/
theorem pruned_count_eq_zero_iff :
    ∀ entries : Entries, entries.pruned.count = 0 ↔ entries.hasFile = false
  | .nil => Iff.intro (fun _ => rfl) fun _ => rfl
  | .cons _ node rest => by
    unfold Entries.pruned Entries.hasFile
    have tail := pruned_count_eq_zero_iff rest
    by_cases full : node.hasFile = true
    · rw [if_pos full, full, Bool.true_or]
      exact Iff.intro (fun none => absurd none (Nat.succ_ne_zero _)) fun no => Bool.noConfusion no
    · rw [if_neg full, Bool.eq_false_iff.mpr full, Bool.false_or]
      exact tail

theorem remove_pruned {entries : Entries} (none : entries.hasFile = false) :
    remove (.dir entries.pruned) = Option.none := by
  have empty := (pruned_count_eq_zero_iff entries).mpr none
  cases gone : entries.pruned with
  | nil => rfl
  | cons name node rest =>
    rw [gone] at empty
    exact absurd empty (Nat.succ_ne_zero _)

/-- Leaving a directory whose listing was pruned. -/
theorem leaveDir_pruned {level : Int} {entries : Entries} :
    leaveDir true entries.pruned (entries.pruned.count + 2) (Walk.quiet (level + 1)) =
      (if level ≠ 0 ∧ entries.hasFile = false then none else some (.dir entries.pruned), 0,
        (Walk.quiet level).setEmpty (!entries.hasFile)) := by
  have counted : ((entries.pruned.count : Int) + 2 = 2) ↔ entries.hasFile = false := by
    rw [← pruned_count_eq_zero_iff]
    omega
  have back : (Walk.quiet (level + 1)).move (-1) = Walk.quiet level := by
    unfold Walk.quiet Walk.move
    simp only [Int.add_neg_cancel_right]
  have reached : ((Walk.quiet level).setEmpty true).info.ftwDirNo = level := rfl
  unfold leaveDir
  simp only [back, counted, and_true]
  by_cases none : entries.hasFile = false
  · rw [if_pos none, remove_pruned none, none, reached]
    by_cases root : level = 0
    · rw [if_neg (not_not.mpr root), if_neg fun both => both.1 root]
      rfl
    · rw [if_pos root, if_pos ⟨root, rfl⟩]
      rfl
  · rw [if_neg none, if_neg fun both => none both.2, eq_true_of_ne_false none]
    rfl

/-- The walk of a directory, from the walk of its listing: the flag says that it is empty now,
and then it is removed, unless it is the root. -/
theorem checkDir_of_entries {depth level : Int} {entries : Entries} {path : Path}
    (short : path.length < bufferSize) (deep : level + 1 ≤ depth)
    (looped : checkEntries none depth true entries path (entries.count + 2)
        (Walk.quiet (level + 1)) =
      some (entries.pruned, none, (entries.pruned.count : Int) + 2, Walk.quiet (level + 1))) :
    checkDir none depth true (.dir entries) path (Walk.quiet level) =
      some (if level ≠ 0 ∧ entries.hasFile = false then none else some (.dir entries.pruned), 0,
        (Walk.quiet level).setEmpty (!entries.hasFile)) := by
  have within : ¬bufferSize ≤ path.length := Nat.not_le.mpr short
  have inside : ¬depth < level + 1 := Int.not_lt.mpr deep
  rw [checkDir]
  simp only [show (Walk.quiet level).info.retuFlag = false from rfl, if_neg within,
    show (Walk.quiet level).move 1 = Walk.quiet (level + 1) from rfl,
    show (Walk.quiet (level + 1)).info.ftwDirNo = level + 1 from rfl, if_neg inside, Walk.tell,
    looped, leave, leaveDir_pruned]
  rw [if_neg Bool.false_ne_true, if_neg (not_not.mpr (rfl : (0 : Int) = 0))]

/-- The loop behind an entry whose walk is known. -/
theorem checkEntries_of_first {depth level dirNo after : Int} {name : Name} {node : Node}
    {rest : Entries} {path : Path} (short : (path.child name).length < bufferSize)
    (first : checkDir none depth true node (path.child name) (Walk.quiet level) =
      some (if node.hasFile then some node.pruned else none, 0,
        (Walk.quiet level).setEmpty (!node.hasFile)))
    (behind : checkEntries none depth true rest path (if node.hasFile then dirNo else dirNo - 1)
        (Walk.quiet level) =
      some (rest.pruned, none, after, Walk.quiet level)) :
    checkEntries none depth true (.cons name node rest) path dirNo (Walk.quiet level) =
      some ((Entries.cons name node rest).pruned, none, after, Walk.quiet level) := by
  have within : ¬bufferSize ≤ (path.child name).length := Nat.not_le.mpr short
  have counted : (if ((Walk.quiet level).setEmpty (!node.hasFile)).info.rmEmptyFlag then dirNo - 1
      else dirNo) = if node.hasFile then dirNo else dirNo - 1 := by
    cases node.hasFile <;> rfl
  have lowered : ((Walk.quiet level).setEmpty (!node.hasFile)).setEmpty false =
      Walk.quiet level := rfl
  rw [checkEntries]
  simp only [if_neg within, first, counted, lowered, cut_child, behind]
  rw [if_neg fun stops => stops.2 rfl, Entries.pruned]
  cases node.hasFile <;> rfl

mutual

/-- Below the root a node is left with its files, or it is gone and the flag is up. -/
theorem checkDir_quiet {depth : Int} : ∀ (node : Node) (path : Path) (level : Int),
    0 < level → node.Short path → level + node.levels ≤ depth →
    checkDir none depth true node path (Walk.quiet level) =
      some (if node.hasFile then some node.pruned else none, 0,
        (Walk.quiet level).setEmpty (!node.hasFile))
  | .file, path, level, _, short, _ => by
    have within : ¬bufferSize ≤ path.length := Nat.not_le.mpr short
    rw [checkDir]
    simp only [show (Walk.quiet level).info.retuFlag = false from rfl, if_neg within, Walk.tell]
    rfl
  | .dir entries, path, level, below, short, deep => by
    rw [Node.levels, Int.natCast_add] at deep
    have deeper : level + 1 + entries.levels ≤ depth := by omega
    have looped := checkEntries_quiet entries path (level + 1) (by omega) short.2 deeper
      (entries.count + 2)
    rw [counted_left] at looped
    rw [checkDir_of_entries short.1 (by omega) looped, Node.hasFile]
    cases full : entries.hasFile with
    | true => 
      rw [if_neg fun both => Bool.noConfusion both.2]
      rfl
    | false =>
      rw [if_pos ⟨Int.ne_of_gt below, rfl⟩]
      rfl

/-- A listing is left with what has files in it, and each of the others is counted off. -/
theorem checkEntries_quiet {depth : Int} : ∀ (entries : Entries) (path : Path) (level : Int),
    0 < level → entries.Short path → level + entries.levels ≤ depth → ∀ dirNo : Int,
    checkEntries none depth true entries path dirNo (Walk.quiet level) =
      some (entries.pruned, none, dirNo - (entries.count - entries.pruned.count : Nat),
        Walk.quiet level)
  | .nil, path, level, _, _, _, dirNo => by
    have same : dirNo - (Entries.nil.count - Entries.nil.pruned.count : Nat) = dirNo :=
      Int.sub_zero dirNo
    rw [same, checkEntries]
    rfl
  | .cons name node rest, path, level, below, short, deep, dirNo => by
    rw [Entries.levels] at deep
    have nodeDeep : level + node.levels ≤ depth := by omega
    have restDeep : level + rest.levels ≤ depth := by omega
    have first := checkDir_quiet node (path.child name) level below short.1 nodeDeep
    have behind := checkEntries_quiet rest path level below short.2 restDeep
      (if node.hasFile then dirNo else dirNo - 1)
    refine (checkEntries_of_first short.1.length first behind).trans ?_
    have fewer := pruned_count_le rest
    have counted : (if node.hasFile then dirNo else dirNo - 1) -
          (rest.count - rest.pruned.count : Nat) =
        dirNo - ((Entries.cons name node rest).count -
          (Entries.cons name node rest).pruned.count : Nat) := by
      rw [Entries.pruned, Entries.count]
      cases node.hasFile with
      | true =>
        rw [if_pos rfl, if_pos rfl, Entries.count]
        omega
      | false =>
        rw [if_neg Bool.false_ne_true, if_neg Bool.false_ne_true]
        omega
    rw [counted]

end

/-! ### What is left, place by place -/

theorem Entries.Behind.pruned {name : Name} :
    ∀ {entries : Entries}, entries.Behind name → entries.pruned.Behind name
  | .nil, _ => trivial
  | .cons _ node _, behind => by
    have tail := Entries.Behind.pruned behind.2
    unfold Entries.pruned
    split
    · exact ⟨behind.1, tail⟩
    · exact tail

theorem Entries.Behind.find {name : Name} {place : List Name} :
    ∀ {entries : Entries}, entries.Behind name → entries.find name place = none
  | .nil, _ => by rw [Entries.find]
  | .cons next _ _, behind => by
    have other : next ≠ name := by
      rintro rfl
      exact List.lt_irrefl _ behind.1
    rw [Entries.find, if_neg other]
    exact Entries.Behind.find behind.2

mutual

/-- A file anywhere below is a file below. -/
theorem Node.hasFile_of_find {found : Node} (full : found.hasFile = true) :
    ∀ (node : Node) (place : List Name), node.find place = some found → node.hasFile = true
  | node, [], here => by
    rw [Node.find] at here
    cases here
    exact full
  | .file, _ :: _, here => by
    rw [Node.find] at here
    cases here
  | .dir entries, name :: place, here => by
    rw [Node.find] at here
    exact Entries.hasFile_of_find full entries name place here

/-- The same from a listing. -/
theorem Entries.hasFile_of_find {found : Node} (full : found.hasFile = true) :
    ∀ (entries : Entries) (name : Name) (place : List Name),
      entries.find name place = some found → entries.hasFile = true
  | .nil, _, _, here => by
    rw [Entries.find] at here
    cases here
  | .cons next node rest, name, place, here => by
    rw [Entries.find] at here
    rw [Entries.hasFile, Bool.or_eq_true]
    split at here
    · exact Or.inl (Node.hasFile_of_find full node place here)
    · exact Or.inr (Entries.hasFile_of_find full rest name place here)

end

/-- What stays at a place: everything at the root, below it what has a file in it. -/
def Kept (place : List Name) (found : Node) : Bool :=
  place.isEmpty || found.hasFile

theorem kept_of_hasFile {node : Node} (full : node.hasFile = true) (place : List Name) :
    (node.find place).filter (Kept place) = (node.find place).filter Node.hasFile := by
  cases place with
  | nil =>
    rw [Node.find, Option.filter_some, Option.filter_some, full]
    rfl
  | cons name place => rfl

mutual

theorem Node.find_pruned : ∀ (node : Node), node.Ascending → ∀ place : List Name,
    node.pruned.find place = ((node.find place).filter (Kept place)).map Node.pruned
  | node, _, [] => by
    rw [Node.find, Node.find, Option.filter_some]
    rfl
  | .file, _, _ :: _ => by
    rw [Node.pruned, Node.find]
    rfl
  | .dir entries, ascending, name :: place => by
    rw [Node.pruned, Node.find, Node.find]
    exact Entries.find_pruned entries ascending name place

theorem Entries.find_pruned : ∀ (entries : Entries), entries.Ascending →
    ∀ (name : Name) (place : List Name),
    entries.pruned.find name place = ((entries.find name place).filter Node.hasFile).map Node.pruned
  | .nil, _, name, place => by
    rw [Entries.pruned, Entries.find]
    rfl
  | .cons next node rest, ascending, name, place => by
    obtain ⟨nodeAscends, behind, restAscends⟩ := ascending
    have tail := Entries.find_pruned rest restAscends name place
    rw [Entries.pruned, Entries.find]
    by_cases full : node.hasFile = true
    · rw [if_pos full, Entries.find]
      by_cases here : next = name
      · rw [if_pos here, if_pos here, Node.find_pruned node nodeAscends place,
          kept_of_hasFile full]
      · rw [if_neg here, if_neg here, tail]
    · rw [if_neg full]
      by_cases here : next = name
      · subst here
        have nothing : (node.find place).filter Node.hasFile = none := by
          rw [Option.filter_eq_none_iff]
          exact fun found there inside => full (Node.hasFile_of_find inside node place there)
        rw [if_pos rfl, behind.pruned.find, nothing]
        rfl
      · rw [if_neg here, tail]

end

/-- The walk with no callback from the root: it leaves the pruned tree. -/
theorem ftwSort_pruned (depth : Int) (dir : Path) (node : Node) (deep : node.levels ≤ depth)
    (short : node.Short dir) :
    ∃ walk, ftwSort none depth true true dir node = some (some node.pruned, 0, walk) := by
  have start : Walk.start = Walk.quiet 0 := rfl
  rw [ftwSort, if_pos rfl, start]
  cases node with
  | file =>
    have within : ¬bufferSize ≤ dir.length := Nat.not_le.mpr short
    refine ⟨Walk.quiet 0, ?_⟩
    rw [checkDir]
    simp only [show (Walk.quiet 0).info.retuFlag = false from rfl, if_neg within, Walk.tell]
    rfl
  | dir entries =>
    rw [Node.levels, Int.natCast_add] at deep
    have deeper : (0 : Int) + 1 + entries.levels ≤ depth := by omega
    have looped := checkEntries_quiet entries dir (0 + 1) (by decide) short.2 deeper
      (entries.count + 2)
    rw [counted_left] at looped
    refine ⟨(Walk.quiet 0).setEmpty (!entries.hasFile), ?_⟩
    rw [checkDir_of_entries short.1 (by omega) looped, if_neg fun both => both.1 rfl]
    rfl

/-- The walk of the disk manager, on a tree that is not deeper than the bound and whose paths go
into the buffers: it returns zero and leaves the root and, below it, just what has a file in it. -/
theorem ftwSort_empties (depth : Int) (dir : Path) (tree : Tree)
    (deep : tree.node.levels ≤ depth) (short : tree.node.Short dir) :
    ∃ left walk, ftwSort none depth true true dir tree.node = some (some left, 0, walk) ∧
      ∀ place, (left.find place).map Node.kind =
        ((tree.node.find place).filter (Kept place)).map Node.kind := by
  obtain ⟨walk, ran⟩ := ftwSort_pruned depth dir tree.node deep short
  refine ⟨tree.node.pruned, walk, ran, fun place => ?_⟩
  rw [Node.find_pruned tree.node tree.ascending place, Option.map_map]
  exact congrArg (fun kind => Option.map kind _) (funext pruned_kind)

/-- A directory with a file and, beside it, an empty directory inside another. -/
def mixed : Tree where
  node := .dir
    (.cons ⟨['a'], a_plain, a_proper⟩ .file
      (.cons ⟨['b'], b_plain, b_proper⟩
        (.dir (.cons ⟨['c'], by decide, by decide⟩ (.dir .nil) .nil)) .nil))
  ascending :=
    ⟨trivial, ⟨by decide, trivial⟩, ⟨trivial, trivial, trivial⟩, trivial, trivial⟩

theorem mixed_emptied :
    (mixed.node.levels : Int) ≤ 500 ∧ mixed.node.Short ['/', 'h'] ∧
    ∃ left walk, ftwSort none 500 true true ['/', 'h'] mixed.node = some (some left, 0, walk) ∧
      ∀ place, (left.find place).map Node.kind =
        ((mixed.node.find place).filter (Kept place)).map Node.kind := by
  have deep : (mixed.node.levels : Int) ≤ 500 := by decide
  have few : ∀ path : Path, path.length < 8 → path.length < bufferSize :=
    fun path small => Nat.lt_trans small (by decide)
  have short : mixed.node.Short ['/', 'h'] :=
    ⟨few _ (by decide), few _ (by decide),
      ⟨few _ (by decide), ⟨few _ (by decide), trivial⟩, trivial⟩, trivial⟩
  exact ⟨deep, short, ftwSort_empties 500 ['/', 'h'] mixed deep short⟩

/-- A path of 3072 characters, which the system takes and the buffers do not. -/
def longPath : Path := (List.replicate 1024 ['/', 'd', 'd']).flatten

/-- Behind a long path not even an empty directory is walked. -/
theorem long_path_overflows :
    ((Node.dir .nil).levels : Int) ≤ 500 ∧
    ¬∃ left walk, ftwSort none 500 true true longPath (.dir .nil) = some (some left, 0, walk) ∧
      ∀ place, (left.find place).map Node.kind =
        (((Node.dir .nil).find place).filter (Kept place)).map Node.kind := by
  refine ⟨by decide, ?_⟩
  rintro ⟨left, walk, ran, -⟩
  have long : longPath.length = 3072 := by
    rw [longPath, List.length_flatten, List.map_replicate, List.sum_replicate_nat]
    rfl
  have full : bufferSize ≤ longPath.length := Nat.le_of_eq long.symm
  have fresh : ¬Walk.start.info.retuFlag = true := Bool.false_ne_true
  rw [ftwSort, if_pos rfl, checkDir, if_neg fresh, if_pos full] at ran
  cases ran

end ExmOnvif.FileLib
