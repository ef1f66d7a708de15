/-
This file is about what the removal with a kept path leaves.

Without links that lead to directories the walk comes to every entry once, under the path that
its names spell, and removes it on the way back unless something is left below it. What is left
is then a matter of the places that hold the walk up: the kept path, behind which it does not
go, and links that do not open, which it does not remove.
-/

import ExmOnvif.FileLib.RmFileSelect
import Mathlib.Data.Set.Lattice

namespace ExmOnvif.FileLib

/-! ### What is to be removed -/

/-- The path of a place below a directory. -/
def Path.under (dir : Path) : List Name → Path
  | [] => dir
  | name :: outer => (dir.under outer).child name

/-- A path leads to another one, which goes on from it. -/
def Above (upper lower : Path) : Prop :=
  upper ++ ['/'] <+: lower

/-- The kept path leads to the directory that is to be cleared. -/
def KeptAbove (dir : Path) (filePath : Option Path) : Prop :=
  ∃ kept, filePath = some kept ∧ Above kept dir

/-- What holds an entry is a directory. -/
def Disk.Closed (disk : Disk) : Prop :=
  ∀ name place, disk.kind (name :: place) ≠ none → disk.kind place = some .dir

/-- A disk with the directory that is to be cleared. -/
structure Site where
  disk : Disk
  root : Place
  rootDir : disk.kind root = some .dir
  closed : disk.Closed

/-- What is at a place below the directory. -/
def Site.kind (site : Site) (below : List Name) : Option Kind :=
  site.disk.kind (below ++ site.root)

section Spec

variable (site : Site) (dir : Path) (filePath : Option Path)

/-- A place that is not to be removed: the kept path, what is below it, and the directories that
lead to it. -/
def Spared (below : List Name) : Prop :=
  ∃ kept, filePath = some kept ∧
    (kept = dir.under below ∨ Above kept (dir.under below) ∨
      site.kind below = some .dir ∧ Above (dir.under below) kept)

/-- The call removes what is below the directory and not spared, and nothing else. -/
def Removes : Prop :=
  ∃ after value, rmFileSelect site.disk site.root dir filePath = some (after, value) ∧
    (∀ below ≠ [], (Spared site dir filePath below →
        after.kind (below ++ site.root) = site.kind below) ∧
      (¬Spared site dir filePath below → after.kind (below ++ site.root) = none)) ∧
    ∀ place, (∀ below ≠ [], place ≠ below ++ site.root) → after.kind place = site.disk.kind place

/-- The walk has met the kept path at a place or before it. -/
def Stopped : List Name → Prop
  | [] => filePath = some dir
  | name :: outer => filePath = some (dir.under (name :: outer)) ∨ Stopped outer

/-- The walk comes to a place, if there is an entry. -/
def Free : List Name → Prop
  | [] => True
  | _ :: outer => ¬Stopped dir filePath outer

/-- The paths that the walk comes to from a place on go into the buffers. -/
def FitsFrom (names : List Name) : Prop :=
  ∀ below, names <:+ below → site.kind below ≠ none → Free dir filePath below →
    (dir.under below).length < rmBufferSize

end Spec

/-! ### Paths and places -/

section Paths

variable {dir kept : Path} {filePath : Option Path} {name : Name} {names below outer : List Name}

theorem length_child (path : Path) (name : Name) :
    (path.child name).length = path.length + 1 + name.text.length := by
  rw [Path.child, List.length_append, List.length_cons]
  omega

theorem length_under (outer : List Name) : dir.length ≤ (dir.under outer).length := by
  induction outer with
  | nil => exact Nat.le_refl _
  | cons name outer inductionHypothesis =>
    rw [Path.under, length_child]
    omega

theorem under_ne (name : Name) (outer : List Name) : dir ≠ dir.under (name :: outer) := by
  intro same
  have longer : dir.length ≤ (dir.under outer).length := length_under outer
  have equal := congrArg List.length same
  rw [Path.under, length_child] at equal
  omega

/-- A path leads to an entry when it leads to the directory or is its path. -/
theorem above_child : Above kept (Path.child dir name) ↔ Above kept dir ∨ kept = dir := by
  unfold Above Path.child
  constructor
  · intro leads
    rcases List.prefix_or_prefix_of_prefix leads (List.prefix_append dir _) with
      short | ⟨tail, long⟩
    · exact Or.inl short
    · rw [← long, List.prefix_append_right_inj] at leads
      cases tail with
      | nil =>
        rw [List.append_nil] at long
        exact Or.inl (long ▸ List.prefix_refl _)
      | cons slash tail =>
        obtain ⟨rfl, inside⟩ := List.cons_prefix_cons.mp leads
        -- Behind the directory's slash there is no other one.
        rcases List.eq_nil_or_concat tail with rfl | ⟨front, last, rfl⟩
        · exact Or.inr (List.append_cancel_right long).symm
        · have ends : (dir ++ '/' :: front) ++ [last] = kept ++ ['/'] := by
            rw [List.append_assoc, ← long, List.cons_append, List.concat_eq_append]
          have slash := (List.append_inj' ends rfl).2
          cases slash
          have member : '/' ∈ List.concat front '/' := by
            rw [List.concat_eq_append]
            exact List.mem_append_right _ List.mem_cons_self
          exact absurd (inside.subset member) name.plain
  · rintro (leads | rfl)
    · exact leads.trans (List.prefix_append dir _)
    · exact (List.prefix_append_right_inj kept).mpr ⟨name.text, rfl⟩

/-- A path that leads to a place leads to the directory or is a place on the way. -/
theorem above_under (leads : Above kept (dir.under below)) :
    Above kept dir ∨ ∃ outer, outer <:+ below ∧ outer ≠ below ∧ kept = dir.under outer := by
  induction below with
  | nil => exact Or.inl leads
  | cons name outer inductionHypothesis =>
    have shorter : ∀ inner : List Name, inner <:+ outer → inner ≠ name :: outer := by
      rintro inner within rfl
      exact absurd within.length_le (Nat.not_le.mpr (Nat.lt_succ_self _))
    rcases above_child.mp leads with earlier | rfl
    · rcases inductionHypothesis earlier with above | ⟨inner, within, -, rfl⟩
      · exact Or.inl above
      · exact Or.inr ⟨inner, within.trans (List.suffix_cons _ _), shorter inner within, rfl⟩
    · exact Or.inr ⟨outer, List.suffix_cons _ _, shorter outer (List.suffix_refl _), rfl⟩

/-- The path of a place on the way leads to the place. -/
theorem under_above (within : outer <:+ below) (apart : outer ≠ below) :
    Above (dir.under outer) (dir.under below) := by
  induction below with
  | nil => exact absurd (List.suffix_nil.mp within) apart
  | cons name below inductionHypothesis =>
    rcases List.suffix_cons_iff.mp within with same | within
    · exact absurd same apart
    · refine above_child.mpr ?_
      by_cases same : outer = below
      · exact Or.inr (same ▸ rfl)
      · exact Or.inl (inductionHypothesis within same)

theorem Above.trans_length {upper lower : Path} (leads : Above upper lower) :
    upper.length < lower.length := by
  have bound := leads.length_le
  rwa [List.length_append] at bound

/-- Different places have different paths. -/
theorem under_inj {other : List Name} (same : dir.under below = dir.under other) :
    below = other := by
  induction below generalizing other with
  | nil =>
    cases other with
    | nil => rfl
    | cons name outer => exact absurd same (under_ne name outer)
  | cons name below inductionHypothesis =>
    cases other with
    | nil => exact absurd same.symm (under_ne name below)
    | cons name' outer =>
      rw [Path.under, Path.under] at same
      have parents := congrArg Path.cut same
      rw [cut_child, cut_child] at parents
      obtain rfl := inductionHypothesis parents
      have texts := (List.cons.inj (List.append_cancel_left same)).2
      rw [Name.ext texts]

/-- The walk has met the kept path exactly when it is a place on the way. -/
theorem stopped_iff :
    Stopped dir filePath below ↔ ∃ outer, outer <:+ below ∧ filePath = some (dir.under outer) := by
  induction below with
  | nil =>
    rw [Stopped]
    constructor
    · intro here
      exact ⟨[], List.suffix_refl _, here⟩
    · rintro ⟨outer, within, here⟩
      rwa [List.suffix_nil.mp within] at here
  | cons name below inductionHypothesis =>
    rw [Stopped, inductionHypothesis]
    constructor
    · rintro (here | ⟨outer, within, here⟩)
      · exact ⟨_, List.suffix_refl _, here⟩
      · exact ⟨outer, within.trans (List.suffix_cons _ _), here⟩
    · rintro ⟨outer, within, here⟩
      rcases List.suffix_cons_iff.mp within with rfl | within
      · exact Or.inl here
      · exact Or.inr ⟨outer, within, here⟩

theorem Stopped.mono (stopped : Stopped dir filePath names) (within : names <:+ below) :
    Stopped dir filePath below := by
  obtain ⟨outer, inside, here⟩ := stopped_iff.mp stopped
  exact stopped_iff.mpr ⟨outer, inside.trans within, here⟩

end Paths

/-! ### Disks with places taken off -/

/-- A disk without some places, and otherwise the same. -/
structure Pruned (gone : Set Place) (disk after : Disk) : Prop where
  none : ∀ place ∈ gone, after.kind place = none
  same : ∀ place ∉ gone, after.kind place = disk.kind place

/-- What there is on a disk is on another one, too. -/
def Less (disk other : Disk) : Prop :=
  ∀ place, disk.kind place = none ∨ disk.kind place = other.kind place

section Pruned

variable {gone more : Set Place} {disk middle after other : Disk}

theorem Pruned.refl (disk : Disk) : Pruned ∅ disk disk :=
  ⟨fun _ member => member.elim, fun _ _ => rfl⟩

theorem pruned_erase (disk : Disk) (place : Place) : Pruned {place} disk (disk.erase place) := by
  constructor
  · intro other member
    exact (kind_erase disk place other).trans (if_pos member)
  · intro other apart
    exact (kind_erase disk place other).trans (if_neg apart)

theorem Pruned.trans (first : Pruned gone disk middle) (second : Pruned more middle after) :
    Pruned (gone ∪ more) disk after := by
  constructor
  · intro place member
    by_cases later : place ∈ more
    · exact second.none place later
    · rw [second.same place later]
      exact first.none place (member.resolve_right later)
  · intro place apart
    rw [Set.mem_union, not_or] at apart
    rw [second.same place apart.2, first.same place apart.1]

/-- Places where there was nothing may be counted as taken off. -/
theorem Pruned.enlarge (pruned : Pruned gone disk after) (within : gone ⊆ more)
    (nothing : ∀ place ∈ more, place ∉ gone → disk.kind place = Option.none) :
    Pruned more disk after := by
  constructor
  · intro place member
    by_cases early : place ∈ gone
    · exact pruned.none place early
    · rw [pruned.same place early]
      exact nothing place member early
  · intro place apart
    exact pruned.same place fun early => apart (within early)

theorem Pruned.less (pruned : Pruned gone disk after) (less : Less disk other) :
    Less after other := by
  intro place
  by_cases member : place ∈ gone
  · exact Or.inl (pruned.none place member)
  · rw [pruned.same place member]
    exact less place

/-- What a place leads to on a disk it leads to on the fuller one. -/
theorem Less.enter (less : Less disk other) {links : Nat} {place : Place} {found : Nat × Place}
    (entered : disk.enter links place = some found) : other.enter links place = some found := by
  induction links generalizing place with
  | zero =>
    rw [Disk.enter] at entered ⊢
    rcases less place with none | same
    · rw [none] at entered
      cases entered
    · rwa [← same]
  | succ links inductionHypothesis =>
    rw [Disk.enter] at entered ⊢
    rcases less place with none | same
    · rw [none] at entered
      cases entered
    · rw [← same]
      cases kind : disk.kind place with
      | none =>
        rw [kind] at entered
        cases entered
      | some kind' =>
        rw [kind] at entered
        cases kind' with
        | file => cases entered
        | dir => exact entered
        | link target => exact inductionHypothesis entered

end Pruned

/-! ### The entries of a site -/

section Entries

variable {site : Site} {names below outer : List Name} {name : Name}

/-- What holds an entry further down is a directory. -/
theorem Disk.Closed.holds {disk : Disk} (closed : disk.Closed) {root : Place}
    (entry : disk.kind (below ++ root) ≠ none) (within : names <:+ below) (apart : names ≠ below) :
    disk.kind (names ++ root) = some .dir := by
  induction below with
  | nil => exact absurd (List.suffix_nil.mp within) apart
  | cons name below inductionHypothesis =>
    have parent : disk.kind (below ++ root) = some .dir := closed name (below ++ root) entry
    rcases List.suffix_cons_iff.mp within with same | within
    · exact absurd same apart
    · by_cases same : names = below
      · rwa [same]
      · refine inductionHypothesis ?_ within same
        rw [parent]
        exact Option.some_ne_none _

theorem Site.holds (entry : site.kind below ≠ none) (within : names <:+ below)
    (apart : names ≠ below) : site.kind names = some .dir :=
  site.closed.holds entry within apart

theorem Site.entry_of_below (entry : site.kind below ≠ none) (within : names <:+ below) :
    site.kind names ≠ none := by
  by_cases same : names = below
  · rwa [same]
  · rw [site.holds entry within same]
    exact Option.some_ne_none _

/-- A place further down lies below one of the entries. -/
theorem exists_child (within : names <:+ below) (apart : names ≠ below) :
    ∃ name, name :: names <:+ below := by
  obtain ⟨front, rfl⟩ := within
  rcases List.eq_nil_or_concat front with rfl | ⟨front, name, rfl⟩
  · exact absurd rfl apart
  · refine ⟨name, front, ?_⟩
    rw [List.concat_eq_append, List.append_assoc]
    rfl

theorem child_unique {other : Name} (within : name :: names <:+ below)
    (within' : other :: names <:+ below) : name = other := by
  have same := List.suffix_of_suffix_length_le within within' (Nat.le_refl _)
  exact (List.cons.inj (same.eq_of_length rfl)).1

end Entries

/-! ### What holds the walk up -/

section Walk

variable (site : Site) (dir : Path) (filePath : Option Path)

/-- An entry that the walk leaves as it is: a link, or the kept one. -/
def Anchor (below : List Name) : Prop :=
  (∃ target, site.kind below = some (.link target)) ∨
    site.kind below ≠ none ∧ filePath = some (dir.under below)

/-- What stays: what the walk does not come to, and what leads to an entry that it leaves. -/
def Stays (below : List Name) : Prop :=
  Stopped dir filePath below ∨ ∃ inner, below <:+ inner ∧ Anchor site dir filePath inner

/-- The places from one on that the walk takes off. -/
def doomed (names : List Name) : Set Place :=
  { place | ∃ below, place = below ++ site.root ∧ names <:+ below ∧ below ≠ [] ∧
    ¬Stays site dir filePath below }

/-- The directories on the way to a place are there. -/
def Way (disk : Disk) (root : Place) : List Name → Prop
  | [] => True
  | _ :: outer => disk.kind (outer ++ root) = some .dir ∧ Way disk root outer

/-- From a place on nothing has been taken off yet. -/
def Untouched (disk : Disk) (names : List Name) : Prop :=
  ∀ below, names <:+ below → disk.kind (below ++ site.root) = site.kind below

/-- The links that the walk comes to lead to no directory. -/
def Shut : Prop :=
  ∀ below target, site.kind below = some (.link target) → ¬Stopped dir filePath below →
    ∀ links, site.disk.enter links (below ++ site.root) = none

/-- What a part of the walk makes of a disk: where all its paths go into the buffers, it takes
places off, and else it is undefined. -/
def Clears (fits : Prop) (gone : Set Place) (disk : Disk) (result : Option World) : Prop :=
  fits ∧ (∃ after, result = some after ∧ Pruned gone disk after.disk) ∨ ¬fits ∧ result = none

end Walk

section Calls

variable {site : Site} {dir : Path} {filePath : Option Path} {disk : Disk} {root : Place}
  {names below : List Name} {name : Name}

theorem enter_dir {place : Place} (isDir : disk.kind place = some .dir) (links : Nat) :
    disk.enter links place = some (links, place) := by
  cases links with
  | zero => rw [Disk.enter, isDir]
  | succ links => rw [Disk.enter, isDir]

/-- Behind directories a path leads where its names say. -/
theorem Way.locate (way : Way disk root names) :
    disk.locate root names = some (maxSymlinks, names ++ root) := by
  induction names with
  | nil => rfl
  | cons name outer inductionHypothesis =>
    rw [Disk.locate, inductionHypothesis way.2]
    simp only [enter_dir way.1]
    rfl

theorem Way.lstat (way : Way disk root names) :
    disk.lstat root names = disk.kind (names ++ root) := by
  rw [Disk.lstat, way.locate]

theorem Way.opendir (way : Way disk root names) :
    disk.opendir root names = (disk.enter maxSymlinks (names ++ root)).map Prod.snd := by
  rw [Disk.opendir, way.locate]

/-- Taking off places further down leaves the way. -/
theorem Way.pruned {gone : Set Place} {after : Disk} (way : Way disk root names)
    (pruned : Pruned gone disk after)
    (deeper : ∀ place ∈ gone, names.length + root.length ≤ place.length) :
    Way after root names := by
  induction names with
  | nil => trivial
  | cons name outer inductionHypothesis =>
    refine ⟨?_, inductionHypothesis way.2 ?_⟩
    · rw [pruned.same, way.1]
      intro member
      have bound := deeper _ member
      rw [List.length_append, List.length_cons] at bound
      omega
    · intro place member
      have bound := deeper place member
      rw [List.length_cons] at bound
      omega

theorem doomed_length {place : Place} (member : place ∈ doomed site dir filePath names) :
    names.length + site.root.length ≤ place.length := by
  obtain ⟨below, rfl, within, -, -⟩ := member
  rw [List.length_append]
  exact Nat.add_le_add_right within.length_le _

/-- Another entry's part of the disk is not touched. -/
theorem Untouched.pruned {other : Name} {after : Disk}
    (untouched : Untouched site disk (name :: names)) (apart : name ≠ other)
    (pruned : Pruned (doomed site dir filePath (other :: names)) disk after) :
    Untouched site after (name :: names) := by
  intro below within
  rw [pruned.same, untouched below within]
  rintro ⟨below', same, within', -, -⟩
  rw [List.append_cancel_right same] at within
  exact apart (child_unique within within')

theorem Anchor.entry {inner : List Name} (anchor : Anchor site dir filePath inner) :
    site.kind inner ≠ none := by
  rcases anchor with ⟨target, link⟩ | ⟨entry, -⟩
  · rw [link]
    exact Option.some_ne_none _
  · exact entry

/-- Where the kept path is met, nothing behind it is come to. -/
theorem fitsFrom_stopped (stopped : Stopped dir filePath names)
    (short : (dir.under names).length < rmBufferSize) : FitsFrom site dir filePath names := by
  intro below within entry free
  cases below with
  | nil => rwa [← List.suffix_nil.mp within]
  | cons name outer =>
    rcases List.suffix_cons_iff.mp within with same | within
    · rwa [← same]
    · exact absurd (stopped.mono within) free

theorem doomed_stopped (stopped : Stopped dir filePath names) :
    doomed site dir filePath names = ∅ := by
  refine Set.eq_empty_of_forall_notMem ?_
  rintro place ⟨below, -, within, -, gone⟩
  exact gone (Or.inl (stopped.mono within))

/-- Nothing is below an entry that is no directory. -/
theorem fitsFrom_leaf (leaf : site.kind names ≠ some .dir)
    (short : (dir.under names).length < rmBufferSize) : FitsFrom site dir filePath names := by
  intro below within entry _
  by_cases same : names = below
  · rwa [← same]
  · exact absurd (site.holds entry within same) leaf

theorem leaf_none (leaf : site.kind names ≠ some .dir) (untouched : Untouched site disk names)
    (within : names <:+ below) (apart : names ≠ below) :
    disk.kind (below ++ site.root) = none := by
  rw [untouched below within]
  by_contra entry
  exact leaf (site.holds entry within apart)

/-- The places that the loop over some names takes off. -/
def doomedIn (site : Site) (dir : Path) (filePath : Option Path) (names listed : List Name) :
    Set Place :=
  { place | ∃ name ∈ listed, place ∈ doomed site dir filePath (name :: names) }

theorem doomedIn_cons (listed : List Name) :
    doomedIn site dir filePath names (name :: listed) =
      doomed site dir filePath (name :: names) ∪ doomedIn site dir filePath names listed := by
  ext place
  constructor
  · rintro ⟨other, member, gone⟩
    rcases List.mem_cons.mp member with rfl | member
    · exact Or.inl gone
    · exact Or.inr ⟨other, member, gone⟩
  · rintro (gone | ⟨other, member, gone⟩)
    · exact ⟨name, List.mem_cons_self, gone⟩
    · exact ⟨other, List.mem_cons_of_mem _ member, gone⟩

theorem doomedIn_length {listed : List Name} {place : Place}
    (member : place ∈ doomedIn site dir filePath names listed) :
    names.length + site.root.length < place.length := by
  obtain ⟨name, -, member⟩ := member
  have bound := doomed_length member
  rw [List.length_cons] at bound
  omega

theorem doomedIn_subset (listed : List Name) :
    doomedIn site dir filePath names listed ⊆ doomed site dir filePath names := by
  rintro place ⟨name, -, below, same, inside, gone, free⟩
  exact ⟨below, same, (List.suffix_cons _ _).trans inside, gone, free⟩

/-- A directory is not among what is taken off below it. -/
theorem not_mem_doomedIn (listed : List Name) :
    names ++ site.root ∉ doomedIn site dir filePath names listed := by
  intro member
  have bound := doomedIn_length member
  rw [List.length_append] at bound
  exact Nat.lt_irrefl _ bound

/-- The loop of the walk may begin, on a disk, with names of a directory still to come. -/
structure Ready (site : Site) (disk : Disk) (names listed : List Name) : Prop where
  distinct : listed.Nodup
  entries : ∀ name ∈ listed, site.kind (name :: names) ≠ none
  untouched : ∀ name ∈ listed, Untouched site disk (name :: names)
  isDir : disk.kind (names ++ site.root) = some .dir
  way : Way disk site.root names
  less : Less disk site.disk

/-- It may go on behind an entry. -/
theorem Ready.rest {listed : List Name} {after : Disk}
    (ready : Ready site disk names (name :: listed))
    (pruned : Pruned (doomed site dir filePath (name :: names)) disk after) :
    Ready site after names listed := by
  have one : ∀ place ∈ doomed site dir filePath (name :: names),
      place ∈ doomedIn site dir filePath names [name] :=
    fun place member => ⟨name, List.mem_singleton_self name, member⟩
  refine ⟨(List.nodup_cons.mp ready.distinct).2,
    fun other member => ready.entries other (List.mem_cons_of_mem _ member), ?_, ?_, ?_,
    pruned.less ready.less⟩
  · intro other member
    refine (ready.untouched other (List.mem_cons_of_mem _ member)).pruned ?_ pruned
    rintro rfl
    exact (List.nodup_cons.mp ready.distinct).1 member
  · rw [pruned.same _ fun member => not_mem_doomedIn [name] (one _ member), ready.isDir]
  · exact ready.way.pruned pruned fun place member => (doomedIn_length (one place member)).le

/-- The loop over the names of a directory, from what the walk makes of each. -/
theorem rmLoop_clears {walk : Path → List Name → World → Option World}
    (free : ¬Stopped dir filePath names)
    (step : ∀ (name : Name) (world : World), site.kind (name :: names) ≠ none →
      Untouched site world.disk (name :: names) → Way world.disk site.root (name :: names) →
      Less world.disk site.disk →
      Clears (FitsFrom site dir filePath (name :: names)) (doomed site dir filePath (name :: names))
        world.disk (walk (dir.under (name :: names)) (name :: names) world))
    (listed : List Name) (world : World) (ready : Ready site world.disk names listed) :
    Clears (∀ name ∈ listed, FitsFrom site dir filePath (name :: names))
      (doomedIn site dir filePath names listed) world.disk
      (rmLoop walk names listed (dir.under names) world) := by
  induction listed generalizing world with
  | nil =>
    refine Or.inl ⟨fun name member => absurd member List.not_mem_nil, world, rfl, ?_⟩
    have nothing : doomedIn site dir filePath names [] = ∅ := by
      refine Set.eq_empty_of_forall_notMem ?_
      rintro place ⟨name, member, -⟩
      cases member
    rw [nothing]
    exact Pruned.refl world.disk
  | cons name listed inductionHypothesis =>
    have entry := ready.entries name List.mem_cons_self
    rw [rmLoop]
    by_cases long : rmBufferSize ≤ ((dir.under names).child name).length
    · refine Or.inr ⟨fun fits => ?_, if_pos long⟩
      have short := fits name List.mem_cons_self (name :: names) (List.suffix_refl _) entry free
      exact absurd long (Nat.not_le.mpr short)
    · rw [if_neg long]
      rcases step name world entry (ready.untouched name List.mem_cons_self)
          ⟨ready.isDir, ready.way⟩ ready.less with ⟨fits, middle, walked, pruned⟩ | ⟨long, walked⟩
      · have walked : walk ((dir.under names).child name) (name :: names) world = some middle :=
          walked
        rw [walked]
        simp only [cut_child]
        rcases inductionHypothesis middle (ready.rest pruned) with
          ⟨others, after, looped, rest⟩ | ⟨long, looped⟩
        · refine Or.inl ⟨List.forall_mem_cons.mpr ⟨fits, others⟩, after, looped, ?_⟩
          rw [doomedIn_cons]
          exact pruned.trans rest
        · exact Or.inr ⟨fun all => long (List.forall_mem_cons.mp all).2, looped⟩
      · have walked : walk ((dir.under names).child name) (name :: names) world = none := walked
        rw [walked]
        exact Or.inr ⟨fun all => long (List.forall_mem_cons.mp all).1, rfl⟩

/-! ### A directory behind its loop -/

section Behind

variable {after : Disk}

/-- Below a directory there is nothing but what its names lead to. -/
theorem none_of_not_listed (untouched : Untouched site disk names) (within : names <:+ below)
    (apart : names ≠ below)
    (absent : below ++ site.root ∉ doomedIn site dir filePath names
      (disk.names (names ++ site.root)))
    (gone : below ≠ []) (free : ¬Stays site dir filePath below) :
    disk.kind (below ++ site.root) = none := by
  obtain ⟨name, inside⟩ := exists_child within apart
  have unlisted : name ∉ disk.names (names ++ site.root) := fun member =>
    absent ⟨name, member, below, rfl, inside, gone, free⟩
  have nothing : site.kind (name :: names) = none := by
    rw [mem_names, not_not] at unlisted
    rw [← untouched _ (List.suffix_cons name names)]
    exact unlisted
  rw [untouched below within]
  by_contra entry
  exact site.entry_of_below entry inside nothing

/-- An entry of a directory is left when something holds the walk up there. -/
theorem child_left_iff (untouched : Untouched site disk names)
    (pruned : Pruned (doomedIn site dir filePath names (disk.names (names ++ site.root))) disk
      after) (name : Name) :
    after.kind (name :: names ++ site.root) ≠ none ↔
      site.kind (name :: names) ≠ none ∧ Stays site dir filePath (name :: names) := by
  have before : disk.kind (name :: names ++ site.root) = site.kind (name :: names) :=
    untouched _ (List.suffix_cons name names)
  by_cases gone : name :: names ++ site.root ∈
      doomedIn site dir filePath names (disk.names (names ++ site.root))
  · rw [pruned.none _ gone]
    refine ⟨fun left => absurd rfl left, fun ⟨_, stays⟩ => ?_⟩
    obtain ⟨other, -, below, same, -, -, free⟩ := gone
    rw [← List.append_cancel_right same] at free
    exact absurd stays free
  · rw [pruned.same _ gone, before]
    refine ⟨fun entry => ⟨entry, ?_⟩, And.left⟩
    by_contra free
    refine gone ⟨name, ?_, name :: names, rfl, List.suffix_refl _, List.cons_ne_nil _ _, free⟩
    rw [mem_names]
    exact before ▸ entry

/-- A directory stays when one of its entries does. -/
theorem stays_dir_iff (isDir : site.kind names = some .dir) (free : ¬Stopped dir filePath names) :
    Stays site dir filePath names ↔
      ∃ name, site.kind (name :: names) ≠ none ∧ Stays site dir filePath (name :: names) := by
  constructor
  · rintro (stopped | ⟨inner, within, anchor⟩)
    · exact absurd stopped free
    · have apart : names ≠ inner := by
        rintro rfl
        rcases anchor with ⟨target, link⟩ | ⟨-, kept⟩
        · rw [isDir] at link
          cases link
        · exact free (stopped_iff.mpr ⟨names, List.suffix_refl _, kept⟩)
      obtain ⟨name, inside⟩ := exists_child within apart
      exact ⟨name, site.entry_of_below anchor.entry inside, Or.inr ⟨inner, inside, anchor⟩⟩
  · rintro ⟨name, entry, stopped | ⟨inner, within, anchor⟩⟩
    · have kept : filePath = some (dir.under (name :: names)) := stopped.resolve_right free
      exact Or.inr ⟨name :: names, List.suffix_cons _ _, Or.inr ⟨entry, kept⟩⟩
    · exact Or.inr ⟨inner, (List.suffix_cons name names).trans within, anchor⟩

/-- Something is left in a directory when the directory stays. -/
theorem names_left_iff (isDir : site.kind names = some .dir) (free : ¬Stopped dir filePath names)
    (untouched : Untouched site disk names)
    (pruned : Pruned (doomedIn site dir filePath names (disk.names (names ++ site.root))) disk
      after) :
    after.names (names ++ site.root) ≠ [] ↔ Stays site dir filePath names := by
  rw [stays_dir_iff isDir free]
  constructor
  · intro some
    obtain ⟨child, member⟩ := List.exists_mem_of_ne_nil _ some
    exact ⟨child, (child_left_iff untouched pruned child).mp (mem_names.mp member)⟩
  · rintro ⟨child, stays⟩ empty
    have member : child ∈ after.names (names ++ site.root) :=
      mem_names.mpr ((child_left_iff untouched pruned child).mpr stays)
    rw [empty] at member
    cases member

/-- A directory behind its loop: it is removed unless it stays or the walk began with it. -/
theorem rmEntry_dir {world : World} (isDir : site.kind names = some .dir)
    (free : ¬Stopped dir filePath names) (untouched : Untouched site disk names)
    (way : Way disk site.root names)
    (pruned : Pruned (doomedIn site dir filePath names (disk.names (names ++ site.root))) disk
      world.disk) :
    Pruned (doomed site dir filePath names) disk
      (rmEntry site.root dir (dir.under names) names world).disk := by
  cases names with
  | nil =>
    have root : dir = dir.under [] := rfl
    rw [rmEntry, if_pos root]
    refine pruned.enlarge (doomedIn_subset _) ?_
    rintro place ⟨below, rfl, inside, gone, free⟩ absent
    exact none_of_not_listed untouched inside gone.symm absent gone free
  | cons name outer =>
    have here : world.disk.kind (name :: outer ++ site.root) = some .dir := by
      rw [pruned.same _ (not_mem_doomedIn _), untouched _ (List.suffix_refl _)]
      exact isDir
    have left := names_left_iff isDir free untouched pruned
    have found := (way.pruned pruned fun place member => (doomedIn_length member).le).locate
    rw [rmEntry, if_neg (under_ne name outer)]
    simp only [Disk.remove, found]
    by_cases stays : Stays site dir filePath (name :: outer)
    · rw [if_pos ⟨here, left.mpr stays⟩]
      refine pruned.enlarge (doomedIn_subset _) ?_
      rintro place ⟨below, rfl, inside, gone, free⟩ absent
      refine none_of_not_listed untouched inside ?_ absent gone free
      rintro rfl
      exact free stays
    · rw [if_neg fun both => stays (left.mp both.2)]
      refine (pruned.trans (pruned_erase world.disk (name :: outer ++ site.root))).enlarge ?_ ?_
      · rintro place (earlier | rfl)
        · exact doomedIn_subset _ earlier
        · exact ⟨name :: outer, rfl, List.suffix_refl _, List.cons_ne_nil _ _, stays⟩
      · rintro place ⟨below, rfl, inside, gone, free⟩ absent
        rw [Set.mem_union, not_or] at absent
        refine none_of_not_listed untouched inside ?_ absent.1 gone free
        rintro rfl
        exact absent.2 rfl

end Behind

/-! ### The walk -/

/-- A file goes. -/
theorem rmEntry_file {world : World} (kind : site.kind names = some .file)
    (free : ¬Stopped dir filePath names) (untouched : Untouched site world.disk names)
    (way : Way world.disk site.root names) :
    Pruned (doomed site dir filePath names) world.disk
      (rmEntry site.root dir (dir.under names) names world).disk := by
  have leaf : site.kind names ≠ some .dir := by
    rw [kind]
    exact fun same => nomatch same
  have below : dir ≠ dir.under names := by
    cases names with
    | nil => exact absurd site.rootDir leaf
    | cons name outer => exact under_ne name outer
  have nonempty : names ≠ [] := by
    rintro rfl
    exact leaf site.rootDir
  have here : ¬(world.disk.kind (names ++ site.root) = some .dir ∧
      world.disk.names (names ++ site.root) ≠ []) := by
    rw [untouched _ (List.suffix_refl _)]
    exact fun both => leaf both.1
  have gone : ¬Stays site dir filePath names := by
    rintro (stopped | ⟨inner, within, anchor⟩)
    · exact free stopped
    · by_cases same : names = inner
      · subst same
        rcases anchor with ⟨target, link⟩ | ⟨-, kept⟩
        · rw [kind] at link
          cases link
        · exact free (stopped_iff.mpr ⟨names, List.suffix_refl _, kept⟩)
      · exact leaf (site.holds anchor.entry within same)
  rw [rmEntry, if_neg below]
  simp only [Disk.remove, way.locate, if_neg here]
  refine (pruned_erase world.disk (names ++ site.root)).enlarge ?_ ?_
  · rintro place rfl
    exact ⟨names, rfl, List.suffix_refl _, nonempty, gone⟩
  · rintro place ⟨other, rfl, within, -, -⟩ absent
    refine leaf_none leaf untouched within ?_
    rintro rfl
    exact absent rfl

/-- A link that does not open stays. -/
theorem pruned_link {target : Place} (kind : site.kind names = some (.link target))
    (untouched : Untouched site disk names) :
    Pruned (doomed site dir filePath names) disk disk := by
  have leaf : site.kind names ≠ some .dir := by
    rw [kind]
    exact fun same => nomatch same
  refine (Pruned.refl disk).enlarge (Set.empty_subset _) ?_
  rintro place ⟨below, rfl, within, -, free⟩ -
  refine leaf_none leaf untouched within ?_
  rintro rfl
  exact free (Or.inr ⟨names, List.suffix_refl _, Or.inl ⟨target, kind⟩⟩)

/-- The paths of a directory and of what is below it. -/
theorem fitsFrom_dir (untouched : Untouched site disk names)
    (short : (dir.under names).length < rmBufferSize) :
    FitsFrom site dir filePath names ↔
      ∀ name ∈ disk.names (names ++ site.root), FitsFrom site dir filePath (name :: names) := by
  constructor
  · intro fits name _ below within
    exact fits below ((List.suffix_cons _ _).trans within)
  · intro fits below within entry free
    by_cases same : names = below
    · rwa [← same]
    · obtain ⟨name, inside⟩ := exists_child within same
      refine fits name ?_ below inside entry free
      have child : disk.kind (name :: names ++ site.root) = site.kind (name :: names) :=
        untouched _ (List.suffix_cons _ _)
      rw [mem_names]
      exact child ▸ site.entry_of_below entry inside

/-- A link that leads to no directory does not open. -/
theorem opendir_link {target : Place} (shut : Shut site dir filePath)
    (link : site.kind names = some (.link target)) (free : ¬Stopped dir filePath names)
    (way : Way disk site.root names) (less : Less disk site.disk) :
    disk.opendir site.root names = none := by
  rw [way.opendir, Option.map_eq_none_iff]
  cases found : disk.enter maxSymlinks (names ++ site.root) with
  | none => rfl
  | some place =>
    have led := less.enter found
    rw [shut names target link free] at led
    cases led

theorem opendir_dir (isDir : site.kind names = some .dir) (untouched : Untouched site disk names)
    (way : Way disk site.root names) :
    disk.opendir site.root names = some (names ++ site.root) := by
  rw [way.opendir, enter_dir ((untouched names (List.suffix_refl _)).trans isDir)]
  rfl

/-- The loop over a directory may begin. -/
theorem ready_dir (isDir : site.kind names = some .dir) (untouched : Untouched site disk names)
    (way : Way disk site.root names) (less : Less disk site.disk) :
    Ready site disk names (disk.names (names ++ site.root)) := by
  have child : ∀ name, disk.kind (name :: names ++ site.root) = site.kind (name :: names) :=
    fun name => untouched _ (List.suffix_cons _ _)
  refine ⟨nodup_names _ _, fun name member => child name ▸ mem_names.mp member, ?_,
    (untouched names (List.suffix_refl _)).trans isDir, way, less⟩
  intro name _ below within
  exact untouched below ((List.suffix_cons _ _).trans within)

/-- A path that is too long is one of those that do not go into the buffers. -/
theorem not_fitsFrom (entry : site.kind names ≠ none) (free : Free dir filePath names)
    (long : rmBufferSize ≤ (dir.under names).length) : ¬FitsFrom site dir filePath names :=
  fun fits => absurd long (Nat.not_le.mpr (fits names (List.suffix_refl _) entry free))

/-- The walk from a place on: it takes off what is doomed there, unless a path is too long. -/
theorem ftwNoChdir_clears (shut : Shut site dir filePath) (fuel : Nat) (names : List Name)
    (world : World) (enough : rmBufferSize ≤ fuel + (dir.under names).length)
    (free : Free dir filePath names) (untouched : Untouched site world.disk names)
    (way : Way world.disk site.root names) (less : Less world.disk site.disk)
    (entry : site.kind names ≠ none) :
    Clears (FitsFrom site dir filePath names) (doomed site dir filePath names) world.disk
      (ftwNoChdir site.root dir filePath fuel (dir.under names) names world) := by
  induction fuel generalizing names world with
  | zero =>
    rw [Nat.zero_add] at enough
    exact Or.inr ⟨not_fitsFrom entry free enough, rfl⟩
  | succ fuel inductionHypothesis =>
    rw [ftwNoChdir]
    by_cases long : rmBufferSize ≤ (dir.under names).length
    · exact Or.inr ⟨not_fitsFrom entry free long, if_pos long⟩
    · have short := Nat.not_le.mp long
      rw [if_neg long]
      by_cases kept : filePath = some (dir.under names)
      · have stopped : Stopped dir filePath names :=
          stopped_iff.mpr ⟨names, List.suffix_refl _, kept⟩
        rw [if_pos kept, doomed_stopped stopped]
        exact Or.inl ⟨fitsFrom_stopped stopped short, world, rfl, Pruned.refl world.disk⟩
      · have goes : ¬Stopped dir filePath names := by
          cases names with
          | nil => exact kept
          | cons name outer => exact fun stopped => stopped.elim kept free
        have here : world.disk.lstat site.root names = site.kind names :=
          way.lstat.trans (untouched names (List.suffix_refl _))
        rw [if_neg kept, here]
        cases kind : site.kind names with
        | none => exact absurd kind entry
        | some kind' =>
          cases kind' with
          | file =>
            have leaf : site.kind names ≠ some .dir := by
              rw [kind]
              exact fun same => nomatch same
            exact Or.inl ⟨fitsFrom_leaf leaf short, _, rfl, rmEntry_file kind goes untouched way⟩
          | link target =>
            have leaf : site.kind names ≠ some .dir := by
              rw [kind]
              exact fun same => nomatch same
            simp only [opendir_link shut kind goes way less]
            exact Or.inl ⟨fitsFrom_leaf leaf short, _, rfl, pruned_link kind untouched⟩
          | dir =>
            have further : ∀ name : Name,
                rmBufferSize ≤ fuel + (dir.under (name :: names)).length := by
              intro name
              rw [Path.under, length_child]
              omega
            simp only [opendir_dir kind untouched way]
            rcases rmLoop_clears goes (fun name world entry untouched way less =>
                inductionHypothesis (name :: names) world (further name) goes untouched way less
                  entry) _ world (ready_dir kind untouched way less) with
              ⟨fits, after, looped, pruned⟩ | ⟨unfit, looped⟩
            · rw [looped]
              exact Or.inl ⟨(fitsFrom_dir untouched short).mpr fits, _, rfl,
                rmEntry_dir kind goes untouched way pruned⟩
            · rw [looped]
              exact Or.inr ⟨fun fits => unfit ((fitsFrom_dir untouched short).mp fits), rfl⟩

/-- The whole call, where links lead to no directory. -/
theorem rmFileSelect_clears (shut : Shut site dir filePath) :
    Clears (FitsFrom site dir filePath []) (doomed site dir filePath []) site.disk
      (ftwNoChdir site.root dir filePath rmBufferSize dir [] ⟨site.disk, 0⟩) := by
  refine ftwNoChdir_clears shut rmBufferSize [] ⟨site.disk, 0⟩ (Nat.le_add_right _ _) trivial
    (fun below _ => rfl) trivial (fun place => Or.inr rfl) ?_
  rw [Site.kind, List.nil_append, site.rootDir]
  exact Option.some_ne_none _

end Calls

/-! ### What is left -/

section Left

variable {site : Site} {dir : Path} {filePath : Option Path} {below : List Name}

/-- What is left of the entries behind a walk is what stays. -/
theorem left_iff {after : Disk} (pruned : Pruned (doomed site dir filePath []) site.disk after)
    (nonempty : below ≠ []) (entry : site.kind below ≠ none) :
    after.kind (below ++ site.root) ≠ none ↔ Stays site dir filePath below := by
  constructor
  · intro left
    by_contra free
    exact left (pruned.none _ ⟨below, rfl, List.nil_suffix, nonempty, free⟩)
  · intro stays
    rw [pruned.same]
    · exact entry
    · rintro ⟨other, same, -, -, free⟩
      rw [← List.append_cancel_right same] at free
      exact free stays

/-- What is left is what it was. -/
theorem kind_of_left {after : Disk} (pruned : Pruned (doomed site dir filePath []) site.disk after)
    (left : after.kind (below ++ site.root) ≠ none) :
    after.kind (below ++ site.root) = site.kind below :=
  pruned.same _ fun gone => left (pruned.none _ gone)

/-- Behind a walk the disk is as it should be when what stays is what is to be spared. -/
theorem removes_of_agree {after : Disk} {value : Int}
    (called : rmFileSelect site.disk site.root dir filePath = some (after, value))
    (pruned : Pruned (doomed site dir filePath []) site.disk after)
    (agree : ∀ below ≠ [], site.kind below ≠ none →
      (Stays site dir filePath below ↔ Spared site dir filePath below)) :
    Removes site dir filePath := by
  refine ⟨after, value, called, fun below nonempty => ?_, ?_⟩
  · by_cases entry : site.kind below = none
    · have gone : after.kind (below ++ site.root) = none := by
        by_contra there
        exact there ((kind_of_left pruned there).trans entry)
      exact ⟨fun _ => gone.trans entry.symm, fun _ => gone⟩
    · constructor
      · intro spared
        exact kind_of_left pruned ((left_iff pruned nonempty entry).mpr
          ((agree below nonempty entry).mpr spared))
      · intro unspared
        by_contra there
        exact unspared ((agree below nonempty entry).mp
          ((left_iff pruned nonempty entry).mp there))
  · intro place outside
    refine pruned.same place ?_
    rintro ⟨below, rfl, -, nonempty, -⟩
    exact outside below nonempty rfl

/-- The call does what it should when every path goes into the buffers and what stays is what is
to be spared. -/
theorem removes_iff_stays (shut : Shut site dir filePath) :
    Removes site dir filePath ↔ FitsFrom site dir filePath [] ∧
      ∀ below ≠ [], site.kind below ≠ none →
        (Stays site dir filePath below ↔ Spared site dir filePath below) := by
  rcases rmFileSelect_clears shut with ⟨fits, world, walked, pruned⟩ | ⟨unfit, walked⟩
  · have whole : rmFileSelect site.disk site.root dir filePath =
        some (world.disk, world.retuVal) := by
      rw [rmFileSelect, walked]
    constructor
    · rintro ⟨after, value, called, removed, -⟩
      rw [whole, Option.some.injEq, Prod.mk.injEq] at called
      obtain ⟨rfl, -⟩ := called
      refine ⟨fits, fun below nonempty entry => ?_⟩
      rw [← left_iff pruned nonempty entry]
      constructor
      · intro there
        by_contra unspared
        exact there ((removed below nonempty).2 unspared)
      · intro spared
        rwa [(removed below nonempty).1 spared]
    · rintro ⟨-, agree⟩
      exact removes_of_agree whole pruned agree
  · constructor
    · rintro ⟨after, value, called, -⟩
      rw [rmFileSelect, walked] at called
      cases called
    · rintro ⟨fits, -⟩
      exact absurd fits unfit

/-- What is spared, from the kept path's place. -/
theorem spared_iff : Spared site dir filePath below ↔
    Stopped dir filePath below ∨ ∃ kept, filePath = some kept ∧
      (Above kept dir ∨ site.kind below = some .dir ∧ Above (dir.under below) kept) := by
  constructor
  · rintro ⟨kept, given, rfl | leads | towards⟩
    · exact Or.inl (stopped_iff.mpr ⟨below, List.suffix_refl _, given⟩)
    · rcases above_under leads with above | ⟨outer, within, -, rfl⟩
      · exact Or.inr ⟨kept, given, Or.inl above⟩
      · exact Or.inl (stopped_iff.mpr ⟨outer, within, given⟩)
    · exact Or.inr ⟨kept, given, Or.inr towards⟩
  · rintro (stopped | ⟨kept, given, above | towards⟩)
    · obtain ⟨outer, within, given⟩ := stopped_iff.mp stopped
      by_cases same : outer = below
      · exact ⟨_, given, Or.inl (same ▸ rfl)⟩
      · exact ⟨_, given, Or.inr (Or.inl (under_above within same))⟩
    · refine ⟨kept, given, Or.inr (Or.inl ?_)⟩
      cases below with
      | nil => exact above
      | cons name outer =>
        have behind : Above dir (dir.under (name :: outer)) :=
          under_above List.nil_suffix (List.cons_ne_nil name outer).symm
        exact above.trans ((List.prefix_append dir ['/']).trans behind)
    · exact ⟨kept, given, Or.inr (Or.inr towards)⟩

/-- When the walk's own way of holding up agrees with what is to be spared. All paths go into the
buffers. Where the kept path leads to the directory, so that nothing is to be removed, every
entry is held up by a link. Elsewhere links are at the kept path or behind it only, and
directories lead to the kept path only when it is there. -/
structure Orderly (site : Site) (dir : Path) (filePath : Option Path) : Prop where
  fits : FitsFrom site dir filePath []
  whole : KeptAbove dir filePath → ∀ below ≠ [], site.kind below ≠ none →
    ∃ inner target, below <:+ inner ∧ site.kind inner = some (.link target)
  links : ¬KeptAbove dir filePath → ∀ below target, site.kind below = some (.link target) →
    Stopped dir filePath below
  present : ¬KeptAbove dir filePath → ∀ below ≠ [], site.kind below = some .dir →
    ∀ kept, filePath = some kept → Above (dir.under below) kept →
      ∃ inner, site.kind inner ≠ none ∧ kept = dir.under inner

/-- The directory of the walk has no kept path in it or at it when the kept path leads to it. -/
theorem not_stopped_of_keptAbove (above : KeptAbove dir filePath) :
    ¬Stopped dir filePath below := by
  rintro stopped
  obtain ⟨kept, given, leads⟩ := above
  obtain ⟨outer, -, same⟩ := stopped_iff.mp stopped
  rw [given, Option.some.injEq] at same
  have shorter := leads.trans_length
  have longer : dir.length ≤ (dir.under outer).length := length_under outer
  rw [same] at shorter
  omega

/-- A directory leads to the places below it only. -/
theorem under_of_above {inner : List Name} (leads : Above (dir.under below) (dir.under inner)) :
    below <:+ inner ∧ below ≠ inner := by
  rcases above_under leads with above | ⟨outer, within, apart, same⟩
  · have shorter := above.trans_length
    have longer : dir.length ≤ (dir.under below).length := length_under below
    omega
  · rw [under_inj same]
    exact ⟨within, apart⟩

/-- A link that the walk comes to is not to be spared, unless everything is. -/
theorem stopped_of_link {target : Place} (link : site.kind below = some (.link target))
    (apart : ¬KeptAbove dir filePath) (spared : Spared site dir filePath below) :
    Stopped dir filePath below := by
  rcases spared_iff.mp spared with stopped | ⟨kept, given, above | ⟨isDir, -⟩⟩
  · exact stopped
  · exact absurd ⟨kept, given, above⟩ apart
  · rw [link] at isDir
    cases isDir

/-- Where everything is to be spared, a link has to hold each entry up. -/
theorem agree_of_keptAbove (above : KeptAbove dir filePath) :
    (Stays site dir filePath below ↔ Spared site dir filePath below) ↔
      ∃ inner target, below <:+ inner ∧ site.kind inner = some (.link target) := by
  have spared : Spared site dir filePath below := by
    obtain ⟨kept, given, leads⟩ := above
    exact spared_iff.mpr (Or.inr ⟨kept, given, Or.inl leads⟩)
  rw [iff_true_right spared]
  constructor
  · rintro (stopped | ⟨inner, within, ⟨target, link⟩ | ⟨-, kept⟩⟩)
    · exact absurd stopped (not_stopped_of_keptAbove above)
    · exact ⟨inner, target, within, link⟩
    · have stopped : Stopped dir filePath inner :=
        stopped_iff.mpr ⟨inner, List.suffix_refl _, kept⟩
      exact absurd stopped (not_stopped_of_keptAbove above)
  · rintro ⟨inner, target, within, link⟩
    exact Or.inr ⟨inner, within, Or.inl ⟨target, link⟩⟩

/-- Where links are at the kept path or behind it, what holds the walk up is the kept path. -/
theorem Anchor.kept {inner : List Name} (anchor : Anchor site dir filePath inner)
    (links : ∀ below target, site.kind below = some (.link target) →
      Stopped dir filePath below) :
    ∃ outer, outer <:+ inner ∧ site.kind outer ≠ none ∧ filePath = some (dir.under outer) := by
  rcases anchor with ⟨target, link⟩ | ⟨entry, kept⟩
  · obtain ⟨outer, within, kept⟩ := stopped_iff.mp (links inner target link)
    have entry : site.kind inner ≠ none := by
      rw [link]
      exact Option.some_ne_none _
    exact ⟨outer, within, site.entry_of_below entry within, kept⟩
  · exact ⟨inner, List.suffix_refl _, entry, kept⟩

/-- Where what stays is what is to be spared, a link is at the kept path or behind it. -/
theorem links_of_agree (apart : ¬KeptAbove dir filePath)
    (agree : ∀ below ≠ [], site.kind below ≠ none →
      (Stays site dir filePath below ↔ Spared site dir filePath below)) {target : Place}
    (link : site.kind below = some (.link target)) : Stopped dir filePath below := by
  have nonempty : below ≠ [] := by
    rintro rfl
    rw [Site.kind, List.nil_append, site.rootDir] at link
    cases link
  have entry : site.kind below ≠ none := by
    rw [link]
    exact Option.some_ne_none _
  have stays : Stays site dir filePath below :=
    Or.inr ⟨below, List.suffix_refl _, Or.inl ⟨target, link⟩⟩
  exact stopped_of_link link apart ((agree below nonempty entry).mp stays)

/-- What holds the walk up, when links are at the kept path or behind it, is to be spared. -/
theorem spared_of_stays
    (links : ∀ below target, site.kind below = some (.link target) → Stopped dir filePath below)
    (stays : Stays site dir filePath below) : Spared site dir filePath below := by
  rcases stays with stopped | ⟨inner, within, anchor⟩
  · exact spared_iff.mpr (Or.inl stopped)
  · obtain ⟨outer, within', entry, kept⟩ := anchor.kept links
    rcases List.suffix_or_suffix_of_suffix within within' with towards | behind
    · by_cases same : below = outer
      · exact spared_iff.mpr (Or.inl (stopped_iff.mpr ⟨outer, same ▸ List.suffix_refl _, kept⟩))
      · exact spared_iff.mpr (Or.inr ⟨_, kept, Or.inr ⟨site.holds entry towards same,
          under_above towards same⟩⟩)
    · exact spared_iff.mpr (Or.inl (stopped_iff.mpr ⟨outer, behind, kept⟩))

/-- Elsewhere what stays is what is to be spared when links are at the kept path or behind it and
the kept path is there when directories lead to it. -/
theorem agree_of_not_keptAbove (apart : ¬KeptAbove dir filePath) :
    (∀ below ≠ [], site.kind below ≠ none →
        (Stays site dir filePath below ↔ Spared site dir filePath below)) ↔
      (∀ below target, site.kind below = some (.link target) → Stopped dir filePath below) ∧
        ∀ below ≠ [], site.kind below = some .dir → ∀ kept, filePath = some kept →
          Above (dir.under below) kept →
            ∃ inner, site.kind inner ≠ none ∧ kept = dir.under inner := by
  constructor
  · intro agree
    have links : ∀ below target, site.kind below = some (.link target) →
        Stopped dir filePath below := fun _ _ link => links_of_agree apart agree link
    refine ⟨links, ?_⟩
    intro below nonempty isDir kept given leads
    have entry : site.kind below ≠ none := by
      rw [isDir]
      exact Option.some_ne_none _
    have spared : Spared site dir filePath below := ⟨kept, given, Or.inr (Or.inr ⟨isDir, leads⟩)⟩
    rcases (agree below nonempty entry).mpr spared with stopped | ⟨inner, within, anchor⟩
    · obtain ⟨outer, within, same⟩ := stopped_iff.mp stopped
      rw [given, Option.some.injEq] at same
      exact ⟨outer, site.entry_of_below entry within, same⟩
    · obtain ⟨outer, -, entry, same⟩ := anchor.kept links
      rw [given, Option.some.injEq] at same
      exact ⟨outer, entry, same⟩
  · rintro ⟨links, present⟩ below nonempty entry
    refine ⟨spared_of_stays links, fun spared => ?_⟩
    rcases spared_iff.mp spared with stopped | ⟨kept, given, above | ⟨isDir, leads⟩⟩
    · exact Or.inl stopped
    · exact absurd ⟨kept, given, above⟩ apart
    · obtain ⟨inner, entry', rfl⟩ := present below nonempty isDir kept given leads
      exact Or.inr ⟨inner, (under_of_above leads).1, Or.inr ⟨entry', given⟩⟩

/-- Where links lead to no directory, the removal takes exactly what it should when the walk is
held up where it should be. -/
theorem removes_iff_orderly (shut : Shut site dir filePath) :
    Removes site dir filePath ↔ Orderly site dir filePath := by
  rw [removes_iff_stays shut]
  by_cases above : KeptAbove dir filePath
  · constructor
    · rintro ⟨fits, agree⟩
      refine ⟨fits, fun _ below nonempty entry => ?_, absurd above, absurd above⟩
      exact (agree_of_keptAbove above).mp (agree below nonempty entry)
    · intro orderly
      refine ⟨orderly.fits, fun below nonempty entry => ?_⟩
      exact (agree_of_keptAbove above).mpr (orderly.whole above below nonempty entry)
  · rw [agree_of_not_keptAbove above]
    constructor
    · rintro ⟨fits, links, present⟩
      exact ⟨fits, fun holds => absurd holds above, fun _ => links, fun _ => present⟩
    · intro orderly
      exact ⟨orderly.fits, orderly.links above, orderly.present above⟩

end Left

end ExmOnvif.FileLib
