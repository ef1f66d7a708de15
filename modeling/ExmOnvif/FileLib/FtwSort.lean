/-
This file models the walk through a directory tree in the file library: every directory is
listed in alphabetical order, every entry is walked before the next one, and a callback is told
of each node and may end the walk or pass over a directory.

The level, the value to return and two flags live in one structure that the whole recursion
shares, and the path of an entry is made by appending to the path of its directory and cutting
it off again at the last slash.
-/

import ExmOnvif.Library.Text

namespace ExmOnvif.FileLib

/-! ### Trees -/

/-- The text of a path, without its terminator. -/
abbrev Path := List Char

/-- The name of an entry: `.` and `..` stand in every listing and are no entries. -/
structure Name where
  text : List Char
  plain : '/' ∉ text
  proper : text ≠ [] ∧ text ≠ ['.'] ∧ text ≠ ['.', '.']
deriving DecidableEq

/-- Two names with one text are one. -/
theorem Name.ext {name other : Name} (same : name.text = other.text) : name = other := by
  cases name
  cases other
  cases same
  rfl

theorem a_plain : '/' ∉ ['a'] := by decide

theorem a_proper : ['a'] ≠ [] ∧ ['a'] ≠ ['.'] ∧ ['a'] ≠ ['.', '.'] := by decide

theorem b_plain : '/' ∉ ['b'] := by decide

theorem b_proper : ['b'] ≠ [] ∧ ['b'] ≠ ['.'] ∧ ['b'] ≠ ['.', '.'] := by decide

mutual

/-- What a path leads to: a directory, or anything else that `lstat` finds. -/
inductive Node where
  | file
  | dir (entries : Entries)

/-- What a directory holds, in the order of `alphasort`. -/
inductive Entries where
  | nil
  | cons (name : Name) (node : Node) (rest : Entries)

end

/-- The number of entries. -/
def Entries.count : Entries → Nat
  | .nil => 0
  | .cons _ _ rest => rest.count + 1

/-- A name stands before all of a listing. -/
def Entries.Behind (name : Name) : Entries → Prop
  | .nil => True
  | .cons next _ rest => name.text < next.text ∧ rest.Behind name

mutual

/-- The listings of a tree are in alphabetical order, and no name is in one twice. -/
def Node.Ascending : Node → Prop
  | .file => True
  | .dir entries => entries.Ascending

/-- The same of what a directory holds. -/
def Entries.Ascending : Entries → Prop
  | .nil => True
  | .cons name node rest => node.Ascending ∧ rest.Behind name ∧ rest.Ascending

end

/-- A directory tree. -/
structure Tree where
  node : Node
  ascending : node.Ascending

/-- `strcat` of a slash and a name. -/
def Path.child (path : Path) (name : Name) : Path :=
  path ++ '/' :: name.text

/-- The path up to its last slash, by the length of what `strrchr` finds. -/
def Path.cut (path : Path) : Path :=
  path.take (path.length - ((path.rtakeWhile (· ≠ '/')).length + 1))

/-- An entry cut off its directory's path again. -/
theorem cut_child (path : Path) (name : Name) : (path.child name).cut = path := by
  have kept : ∀ char ∈ name.text, decide (char ≠ '/') = true := by
    intro char member
    exact decide_eq_true fun same => name.plain (same ▸ member)
  have behind : (path ++ '/' :: name.text).rtakeWhile (fun char => decide (char ≠ '/')) =
      name.text :=
    Library.rtakeWhile_behind (decide_eq_false (not_not.mpr rfl)) kept
  unfold Path.cut Path.child
  rw [behind, List.length_append, List.length_cons, Nat.add_sub_cancel]
  exact List.take_left' rfl

/-! ### The walk -/

/-- `FN_RETURN_CONTINUE`. -/
def fnReturnContinue : Int := 1

/-- The size of the buffers for paths. -/
def bufferSize : Nat := 1024 * 3

/-- The flags that a callback gets where nothing goes wrong. -/
inductive Flag where
  | ftwF
  | ftwD
deriving DecidableEq, Repr

/-- `DIR_INFO`, as far as it is read. -/
structure DirInfo where
  retuFlag : Bool
  rmEmptyFlag : Bool
  retuVal : Int
  ftwDirNo : Int

/-- The shared structure, and the calls of the callback so far. -/
structure Walk where
  info : DirInfo
  calls : List (Path × Flag)

/-- The structure at the beginning. -/
def Walk.start : Walk := ⟨⟨false, false, 0, 0⟩, []⟩

/-- A callback that may be missing. -/
abbrev Fn := Option (Path → Flag → Int)

/-- Calls the callback, which stays at zero where there is none. -/
def Walk.tell (fn : Fn) (path : Path) (flag : Flag) (walk : Walk) : Int × Walk :=
  match fn with
  | none => (0, walk)
  | some fn => (fn path flag, { walk with calls := walk.calls ++ [(path, flag)] })

/-- Sets the value to return. -/
def Walk.setVal (value : Int) (walk : Walk) : Walk :=
  { walk with info := { walk.info with retuVal := value } }

/-- Ends the walk with a value. -/
def Walk.stop (value : Int) (walk : Walk) : Walk :=
  { walk with info := { walk.info with retuFlag := true, retuVal := value } }

/-- Changes the level. -/
def Walk.move (levels : Int) (walk : Walk) : Walk :=
  { walk with info := { walk.info with ftwDirNo := walk.info.ftwDirNo + levels } }

/-- Sets the flag for a removed directory. -/
def Walk.setEmpty (empty : Bool) (walk : Walk) : Walk :=
  { walk with info := { walk.info with rmEmptyFlag := empty } }

/-- `remove`: a directory goes when nothing is in it. -/
def remove : Node → Option Node
  | .dir .nil => none
  | node => some node

/-- What is left of a listing when this is left of its first entry. -/
def Entries.keep (name : Name) (left : Option Node) (rest : Entries) : Entries :=
  match left with
  | none => rest
  | some node => .cons name node rest

/-- `check_dir` behind its loop: what is left of the directory, the value returned and the shared
structure. -/
def leaveDir (rmEmptyDir : Bool) (left : Entries) (dirNo : Int) (walk : Walk) :
    Option Node × Int × Walk :=
  let walk := walk.move (-1)
  if dirNo = 2 ∧ rmEmptyDir then
    let walk := walk.setEmpty true
    (if walk.info.ftwDirNo ≠ 0 then remove (.dir left) else some (.dir left),
      walk.info.retuVal, walk)
  else (some (.dir left), walk.info.retuVal, walk)

/-- What `check_dir` makes of how its loop went. -/
def leave (rmEmptyDir : Bool) :
    Option (Entries × Option Int × Int × Walk) → Option (Option Node × Int × Walk)
  | none => none
  | some (left, some value, _, walk) => some (some (.dir left), value, walk)
  | some (left, none, dirNo, walk) => some (leaveDir rmEmptyDir left dirNo walk)

section Walk

variable (fn : Fn) (dirDepth : Int) (rmEmptyDir : Bool)

mutual

/-- `check_dir`: what is left of the node, the value returned and the shared structure.
Undefined when a path does not go into the buffers. -/
def checkDir (node : Node) (dir : Path) (walk : Walk) : Option (Option Node × Int × Walk) :=
  if walk.info.retuFlag then some (some node, walk.info.retuVal, walk)
  else if bufferSize ≤ dir.length then none
  else
    match node with
    | .file =>
      let (value, walk) := walk.tell fn dir .ftwF
      if value ≠ 0 then some (some .file, value, walk.setVal value)
      else some (some .file, walk.info.retuVal, walk)
    | .dir entries =>
      let walk := walk.move 1
      if dirDepth < walk.info.ftwDirNo then
        some (some (.dir entries), walk.info.retuVal, walk.move (-1))
      else
        let (value, walk) := walk.tell fn dir .ftwD
        if value ≠ 0 then some (some (.dir entries), value, walk.setVal value)
        else
          -- The listing has the two entries for the directory itself and the one above it.
          leave rmEmptyDir (checkEntries entries dir (entries.count + 2) walk)

/-- The loop of `check_dir` over a listing: what is left of it, the value that ends the walk, if
one does, and the number of entries counted as still there. -/
def checkEntries (entries : Entries) (workDir : Path) (dirNo : Int) (walk : Walk) :
    Option (Entries × Option Int × Int × Walk) :=
  match entries with
  | .nil => some (.nil, none, dirNo, walk)
  | .cons name node rest =>
    let path := workDir.child name
    if bufferSize ≤ path.length then none
    else
      match checkDir node path walk with
      | none => none
      | some (left, value, walk) =>
        if value ≠ fnReturnContinue ∧ value ≠ 0 then
          some (rest.keep name left, some value, dirNo, walk.stop value)
        else
          let dirNo := if walk.info.rmEmptyFlag then dirNo - 1 else dirNo
          match checkEntries rest path.cut dirNo (walk.setEmpty false) with
          | none => none
          | some (others, stopped, dirNo, walk) =>
            some (others.keep name left, stopped, dirNo, walk)

end

/-- `ftw_sort` in alphabetical order, with whether a function for errors is given. -/
def ftwSort (errFn : Bool) (dir : Path) (node : Node) : Option (Option Node × Int × Walk) :=
  if errFn then checkDir fn dirDepth rmEmptyDir node dir Walk.start
  else some (some node, -1, Walk.start)

end Walk

end ExmOnvif.FileLib
