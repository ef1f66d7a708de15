/-
This file models the removal of everything below a directory but a path that is to be kept.

The walk knows paths only: it compares them as texts with the kept one, asks `lstat` for what
they lead to, opens directories and symbolic links alike, and counts on `remove` to fail for a
directory that still holds something. So the model has a disk with places on it, and every
call resolves its path on the disk as it is then, links included.
-/

import ExmOnvif.FileLib.FtwSort
import ExmOnvif.Library.Assoc

namespace ExmOnvif.FileLib

/-! ### A disk -/

/-- Where an entry is: its name and the names of the directories it is in, outwards. -/
abbrev Place := List Name

/-- What an entry is. A link leads to a place. -/
inductive Kind where
  | file
  | dir
  | link (target : Place)
deriving DecidableEq

/-- The entries of a disk, in the order in which directories are read. -/
structure Disk where
  entries : List (Place × Kind)
  distinct : (entries.map Prod.fst).Nodup

/-- What is at a place. -/
def Disk.kind (disk : Disk) (place : Place) : Option Kind :=
  disk.entries.lookup place

/-- The disk without an entry. -/
def Disk.erase (disk : Disk) (place : Place) : Disk where
  entries := disk.entries.filter fun entry => entry.1 ≠ place
  distinct := disk.distinct.sublist (List.filter_sublist.map Prod.fst)

/-- The name of an entry in a directory. -/
def nameIn (place : Place) : Place → Option Name
  | [] => none
  | name :: parent => if parent = place then some name else none

/-- The names that `readdir` gives for a directory, less the two that stand in each. -/
def Disk.names (disk : Disk) (place : Place) : List Name :=
  (disk.entries.map Prod.fst).filterMap (nameIn place)

/-- The directory that a place leads to, and how many more links may be followed. -/
def Disk.enter (disk : Disk) : Nat → Place → Option (Nat × Place)
  | 0, place =>
    match disk.kind place with
    | some .dir => some (0, place)
    | _ => none
  | links + 1, place =>
    match disk.kind place with
    | some .dir => some (links + 1, place)
    | some (.link target) => disk.enter links target
    | _ => none

/-- The number of links that the system follows in one path. -/
def maxSymlinks : Nat := 40

/-- The place of a path below a directory, from the names behind the directory, the last one
first: all but the last are entered. -/
def Disk.locate (disk : Disk) (root : Place) : List Name → Option (Nat × Place)
  | [] => some (maxSymlinks, root)
  | name :: outer =>
    match disk.locate root outer with
    | none => none
    | some (links, place) =>
      match disk.enter links place with
      | none => none
      | some (links, dir) => some (links, name :: dir)

/-- `lstat`, which does not follow the last name. -/
def Disk.lstat (disk : Disk) (root : Place) (names : List Name) : Option Kind :=
  match disk.locate root names with
  | none => none
  | some (_, place) => disk.kind place

/-- `opendir`, which does. -/
def Disk.opendir (disk : Disk) (root : Place) (names : List Name) : Option Place :=
  match disk.locate root names with
  | none => none
  | some (links, place) => (disk.enter links place).map Prod.snd

/-- `remove`: a directory goes when nothing is in it, anything else always. -/
def Disk.remove (disk : Disk) (root : Place) (names : List Name) : Disk :=
  match disk.locate root names with
  | none => disk
  | some (_, place) =>
    if disk.kind place = some .dir ∧ disk.names place ≠ [] then disk else disk.erase place

/-! ### The walk -/

/-- The size of the buffers for paths. -/
def rmBufferSize : Nat := 1024

/-- The disk and the value to return. -/
structure World where
  disk : Disk
  retuVal : Int

section Walk

variable (root : Place) (rmDir : Path) (rmFilePath : Option Path)

/-- The loop of `ftw_no_chdir` over the names of a directory. Undefined when a path does not go
into the buffers. -/
def rmLoop (walk : Path → List Name → World → Option World) (outer : List Name) :
    List Name → Path → World → Option World
  | [], _, world => some world
  | name :: rest, workDir, world =>
    if rmBufferSize ≤ (workDir.child name).length then none
    else
      match walk (workDir.child name) (name :: outer) world with
      | none => none
      | some world => rmLoop walk outer rest (workDir.child name).cut world

/-- The end of `ftw_no_chdir`: everything but the directory of the whole walk is removed. -/
def rmEntry (dir : Path) (names : List Name) (world : World) : World :=
  if rmDir = dir then world
  else { world with disk := world.disk.remove root names }

/-- `ftw_no_chdir` on a path, with the names of it behind the directory of the whole walk. The
depth is bounded because every path is longer than the one before it. -/
def ftwNoChdir : Nat → Path → List Name → World → Option World
  | 0, _, _, _ => none
  | fuel + 1, dir, names, world =>
    if rmBufferSize ≤ dir.length then none
    else if rmFilePath = some dir then some world
    else
      match world.disk.lstat root names with
      | none => some { world with retuVal := -1 }
      | some .file => some (rmEntry root rmDir dir names world)
      | some _ =>
        match world.disk.opendir root names with
        | none => some { world with retuVal := -1 }
        | some place =>
          match rmLoop (ftwNoChdir fuel) names (world.disk.names place) dir world with
          | none => none
          | some world => some (rmEntry root rmDir dir names world)

end Walk

/-- `rm_file_select`: the disk behind it and the value returned. The path leads to the directory
at a place. -/
def rmFileSelect (disk : Disk) (root : Place) (dir : Path) (filePath : Option Path) :
    Option (Disk × Int) :=
  match ftwNoChdir root dir filePath rmBufferSize dir [] ⟨disk, 0⟩ with
  | none => none
  | some world => some (world.disk, world.retuVal)

/-! ### Disks, read -/

section Disk

variable {disk : Disk} {place other : Place} {name : Name}

theorem kind_erase (disk : Disk) (place other : Place) :
    (disk.erase place).kind other = if other = place then none else disk.kind other :=
  Library.lookup_filter_ne other

theorem kind_ne_none : disk.kind place ≠ none ↔ place ∈ disk.entries.map Prod.fst := by
  rw [Disk.kind, Ne, List.lookup_eq_none_iff, List.mem_map]
  push Not
  refine exists_congr fun entry => and_congr_right fun _ => ?_
  rw [Ne, bne_iff_ne, not_not, eq_comm]

theorem nameIn_eq_some : nameIn place other = some name ↔ other = name :: place := by
  cases other with
  | nil =>
    constructor
    · intro named
      cases named
    · intro same
      cases same
  | cons first parent =>
    rw [nameIn, List.cons.injEq]
    by_cases same : parent = place
    · rw [if_pos same, Option.some.injEq]
      exact ⟨fun first => ⟨first, same⟩, And.left⟩
    · rw [if_neg same]
      constructor
      · intro named
        cases named
      · intro both
        exact absurd both.2 same

theorem mem_names : name ∈ disk.names place ↔ disk.kind (name :: place) ≠ none := by
  rw [kind_ne_none, Disk.names, List.mem_filterMap]
  constructor
  · rintro ⟨other, member, named⟩
    exact nameIn_eq_some.mp named ▸ member
  · intro member
    exact ⟨_, member, nameIn_eq_some.mpr rfl⟩

theorem nodup_names (disk : Disk) (place : Place) : (disk.names place).Nodup := by
  refine disk.distinct.filterMap ?_
  intro other other' name named named'
  rw [nameIn_eq_some.mp named, nameIn_eq_some.mp named']

end Disk

end ExmOnvif.FileLib
