/-
This file is about links that lead to directories.

The walk opens such a link and removes what it finds there. So a file in that directory goes,
wherever the directory is, and though it may be behind the kept path. On the way the walk may come
to the directory by other paths, too, and may remove links and directories that these paths need.
What carries the proof is that nothing that leads to the directory is removed as long as the file
is there.
-/

import ExmOnvif.FileLib.KeptPath

namespace ExmOnvif.FileLib

/-! ### What a place leads to -/

/-- A place leads to a directory, if enough links may be followed. -/
def Disk.Leads (disk : Disk) (place dir : Place) : Prop :=
  ∃ links left, disk.enter links place = some (left, dir)

section Enter

variable {disk other : Disk} {place dir root : Place} {links left : Nat} {names : List Name}

/-- What is entered is a directory, or a link that leads to what is entered. -/
theorem enter_cases {found : Nat × Place} (entered : disk.enter links place = some found) :
    disk.kind place = some .dir ∧ found = (links, place) ∨
      ∃ fewer target, links = fewer + 1 ∧ disk.kind place = some (.link target) ∧
        disk.enter fewer target = some found := by
  cases links with
  | zero =>
    rw [Disk.enter] at entered
    cases kind : disk.kind place with
    | none =>
      rw [kind] at entered
      cases entered
    | some kind' =>
      rw [kind] at entered
      cases kind' with
      | file => cases entered
      | link target => cases entered
      | dir =>
        cases entered
        exact Or.inl ⟨rfl, rfl⟩
  | succ fewer =>
    rw [Disk.enter] at entered
    cases kind : disk.kind place with
    | none =>
      rw [kind] at entered
      cases entered
    | some kind' =>
      rw [kind] at entered
      cases kind' with
      | file => cases entered
      | link target => exact Or.inr ⟨fewer, target, rfl, rfl, entered⟩
      | dir =>
        cases entered
        exact Or.inl ⟨rfl, rfl⟩

/-- A link is entered where its target is. -/
theorem enter_link {target : Place} (link : disk.kind place = some (.link target)) :
    disk.enter (links + 1) place = disk.enter links target := by
  rw [Disk.enter, link]

/-- How many links may be followed does not matter for where they lead. -/
theorem enter_unique {links' left' : Nat} {dir' : Place}
    (entered : disk.enter links place = some (left, dir))
    (entered' : disk.enter links' place = some (left', dir')) : dir = dir' := by
  induction links generalizing place links' with
  | zero =>
    rcases enter_cases entered with ⟨isDir, found⟩ | ⟨fewer, target, more, -, -⟩
    · cases found
      rw [enter_dir isDir] at entered'
      cases entered'
      rfl
    · cases more
  | succ links inductionHypothesis =>
    rcases enter_cases entered with ⟨isDir, found⟩ | ⟨fewer, target, more, link, entered⟩
    · cases found
      rw [enter_dir isDir] at entered'
      cases entered'
      rfl
    · cases more
      rcases enter_cases entered' with ⟨isDir, -⟩ | ⟨fewer', target', -, link', entered'⟩
      · rw [link] at isDir
        cases isDir
      · rw [link] at link'
        cases link'
        exact inductionHypothesis entered entered'

/-- A path that leads to a place does so on a fuller disk. -/
theorem Less.locate (less : Less disk other) {found : Nat × Place}
    (located : disk.locate root names = some found) : other.locate root names = some found := by
  induction names generalizing found with
  | nil => exact located
  | cons name outer inductionHypothesis =>
    rw [Disk.locate] at located ⊢
    cases earlier : disk.locate root outer with
    | none =>
      rw [earlier] at located
      cases located
    | some place =>
      rw [inductionHypothesis earlier]
      rw [earlier] at located
      simp only at located ⊢
      cases entered : disk.enter place.1 place.2 with
      | none =>
        rw [entered] at located
        cases located
      | some dir =>
        rw [less.enter entered]
        rwa [entered] at located

theorem Less.some (less : Less disk other) {kind : Kind} (there : disk.kind place = some kind) :
    other.kind place = some kind := by
  rcases less place with none | same
  · rw [none] at there
    cases there
  · rwa [← same]

theorem Less.refl (disk : Disk) : Less disk disk :=
  fun _ => Or.inr rfl

theorem Less.trans {last : Disk} (less : Less disk other) (less' : Less other last) :
    Less disk last := by
  intro place
  rcases less place with none | same
  · exact Or.inl none
  · rw [same]
    exact less' place

theorem less_erase (disk : Disk) (place : Place) : Less (disk.erase place) disk := by
  intro other
  rw [kind_erase]
  by_cases here : other = place
  · exact Or.inl (if_pos here)
  · exact Or.inr (if_neg here)

theorem less_remove (disk : Disk) (root : Place) (names : List Name) :
    Less (disk.remove root names) disk := by
  unfold Disk.remove
  cases disk.locate root names with
  | none => exact .refl disk
  | some found =>
    simp only
    by_cases full : disk.kind found.2 = Option.some .dir ∧ disk.names found.2 ≠ []
    · rw [if_pos full]
      exact .refl disk
    · rw [if_neg full]
      exact less_erase disk found.2

/-- What holds an entry is kept by a removal. -/
theorem Disk.Closed.remove (closed : disk.Closed) (root : Place) (names : List Name) :
    (disk.remove root names).Closed := by
  unfold Disk.remove
  cases disk.locate root names with
  | none => exact closed
  | some found =>
    simp only
    by_cases full : disk.kind found.2 = some .dir ∧ disk.names found.2 ≠ []
    · rw [if_pos full]
      exact closed
    · rw [if_neg full]
      intro name place entry
      rw [kind_erase] at entry ⊢
      by_cases here : name :: place = found.2
      · rw [if_pos here] at entry
        exact absurd rfl entry
      · rw [if_neg here] at entry
        have isDir := closed name place entry
        rw [if_neg]
        · exact isDir
        · rintro rfl
          exact full ⟨isDir, List.ne_nil_of_mem (mem_names.mpr entry)⟩

/-- Behind an entry the way is there. -/
theorem Disk.Closed.way (closed : disk.Closed) (entry : disk.kind (names ++ root) ≠ none) :
    Way disk root names := by
  induction names with
  | nil => trivial
  | cons name outer inductionHypothesis =>
    have isDir : disk.kind (outer ++ root) = some .dir := closed name (outer ++ root) entry
    refine ⟨isDir, inductionHypothesis ?_⟩
    rw [isDir]
    exact Option.some_ne_none _

end Enter

/-! ### A file behind a link -/

/-- A link that the walk comes to, with a file in the directory it leads to that is not to be
removed, and that the kept path does not lead to. -/
structure Leak (site : Site) (dir : Path) (filePath : Option Path) where
  below : List Name
  target : Place
  link : site.kind below = some (.link target)
  reached : ¬Stopped dir filePath below
  place : Place
  left : Nat
  leads : site.disk.enter maxSymlinks (below ++ site.root) = some (left, place)
  name : Name
  file : site.disk.kind (name :: place) = some .file
  spared : ∀ below ≠ [], name :: place = below ++ site.root → Spared site dir filePath below
  unkept : ∀ names links, filePath = some (dir.under names) →
    site.disk.locate site.root names ≠ some (links, name :: place)

/-- On a disk of the walk what leads to the file's directory is as it was, or the file is gone. -/
structure Leak.Intact {site : Site} {dir : Path} {filePath : Option Path}
    (leak : Leak site dir filePath) (disk : Disk) : Prop where
  closed : disk.Closed
  less : Less disk site.disk
  held : disk.kind (leak.name :: leak.place) ≠ none →
    ∀ place, site.disk.Leads place leak.place → disk.kind place = site.disk.kind place

section Leak

variable {site : Site} {dir : Path} {filePath : Option Path} {leak : Leak site dir filePath}
  {disk : Disk} {names : List Name}

theorem Leak.intact_start (leak : Leak site dir filePath) : leak.Intact site.disk :=
  ⟨site.closed, .refl site.disk, fun _ _ _ => rfl⟩

/-- What led to the directory leads to it while the file is there. -/
theorem Leak.Intact.enter (intact : leak.Intact disk)
    (there : disk.kind (leak.name :: leak.place) ≠ none) {links left : Nat} {place : Place}
    (entered : site.disk.enter links place = some (left, leak.place)) :
    disk.enter links place = some (left, leak.place) := by
  induction links generalizing place with
  | zero =>
    have same := intact.held there place ⟨_, _, entered⟩
    rcases enter_cases entered with ⟨isDir, found⟩ | ⟨fewer, target, more, -, -⟩
    · rw [enter_dir (same.trans isDir), found]
    · cases more
  | succ links inductionHypothesis =>
    have same := intact.held there place ⟨_, _, entered⟩
    rcases enter_cases entered with ⟨isDir, found⟩ | ⟨fewer, target, more, link, entered⟩
    · rw [enter_dir (same.trans isDir), found]
    · cases more
      rw [enter_link (same.trans link)]
      exact inductionHypothesis entered

/-- A removal of something that does not lead to the directory keeps it so. -/
theorem Leak.Intact.remove (intact : leak.Intact disk)
    (apart : disk.kind (leak.name :: leak.place) ≠ none → ∀ links place,
      disk.locate site.root names = some (links, place) → ¬site.disk.Leads place leak.place) :
    leak.Intact (disk.remove site.root names) := by
  have less := less_remove disk site.root names
  refine ⟨intact.closed.remove site.root names, less.trans intact.less, ?_⟩
  intro there place leads
  have before : disk.kind (leak.name :: leak.place) ≠ none := by
    rcases less (leak.name :: leak.place) with none | same
    · exact absurd none there
    · rwa [← same]
  rw [← intact.held before place leads]
  unfold Disk.remove
  cases located : disk.locate site.root names with
  | none => rfl
  | some found =>
    simp only
    by_cases full : disk.kind found.2 = some .dir ∧ disk.names found.2 ≠ []
    · rw [if_pos full]
    · rw [if_neg full, kind_erase, if_neg]
      rintro rfl
      exact apart before found.1 found.2 located leads

/-- Once it is gone, the file stays gone. -/
theorem gone_of_less {after : Disk} {place : Place} (less : Less after disk)
    (gone : disk.kind place = none) : after.kind place = none := by
  rcases less place with none | same
  · exact none
  · exact same.trans gone

/-- The file is what it was while it is there. -/
theorem Leak.Intact.file (intact : leak.Intact disk) {kind : Kind}
    (there : disk.kind (leak.name :: leak.place) = some kind) : kind = .file := by
  have same := intact.less.some there
  rw [leak.file] at same
  exact (Option.some.inj same).symm

/-! ### The walk -/

/-- What a part of the walk makes of a disk: what leads to the file's directory is kept while the
file is there, and the file goes when the walk is at it. -/
structure Leak.Walked (leak : Leak site dir filePath) (names : List Name) (world after : World) :
    Prop where
  intact : leak.Intact after.disk
  less : Less after.disk world.disk
  took : ∀ links, world.disk.locate site.root names = some (links, leak.name :: leak.place) →
    after.disk.kind (leak.name :: leak.place) = none

/-- The walk does so at every entry of a directory. -/
def Leak.Steps (leak : Leak site dir filePath) (walk : Path → List Name → World → Option World)
    (names : List Name) : Prop :=
  ∀ (name : Name) (world after : World), leak.Intact world.disk →
    walk (dir.under (name :: names)) (name :: names) world = some after →
      leak.Walked (name :: names) world after

/-- The loop is the walk of the first entry and the loop over the others. -/
theorem rmLoop_cons {walk : Path → List Name → World → Option World} {name : Name}
    {rest : List Name} {world after : World}
    (looped : rmLoop walk names (name :: rest) (dir.under names) world = some after) :
    ∃ middle, walk (dir.under (name :: names)) (name :: names) world = some middle ∧
      rmLoop walk names rest (dir.under names) middle = some after := by
  rw [rmLoop] at looped
  by_cases long : rmBufferSize ≤ ((dir.under names).child name).length
  · rw [if_pos long] at looped
    cases looped
  · rw [if_neg long] at looped
    cases walked : walk ((dir.under names).child name) (name :: names) world with
    | none =>
      rw [walked] at looped
      cases looped
    | some middle =>
      rw [walked] at looped
      simp only [cut_child] at looped
      exact ⟨middle, walked, looped⟩

section Loop

variable {walk : Path → List Name → World → Option World} {listed : List Name}

theorem rmLoop_intact
    (step : leak.Steps walk names) {world after : World} (intact : leak.Intact world.disk)
    (looped : rmLoop walk names listed (dir.under names) world = some after) :
    leak.Intact after.disk ∧ Less after.disk world.disk := by
  induction listed generalizing world with
  | nil =>
    cases looped
    exact ⟨intact, .refl _⟩
  | cons name rest inductionHypothesis =>
    obtain ⟨middle, walked, looped⟩ := rmLoop_cons looped
    have first := step name world middle intact walked
    obtain ⟨intact', less⟩ := inductionHypothesis first.intact looped
    exact ⟨intact', less.trans first.less⟩

/-- The file is gone behind the loop when it is gone behind one of its entries. -/
theorem rmLoop_gone
    (step : leak.Steps walk names) {name : Name} (member : name ∈ listed) {world after : World}
    (gone : ∀ before middle : World, leak.Intact before.disk → Less after.disk before.disk →
      walk (dir.under (name :: names)) (name :: names) before = some middle →
        middle.disk.kind (leak.name :: leak.place) = none)
    (intact : leak.Intact world.disk)
    (looped : rmLoop walk names listed (dir.under names) world = some after) :
    after.disk.kind (leak.name :: leak.place) = none := by
  induction listed generalizing world with
  | nil => cases member
  | cons head rest inductionHypothesis =>
    obtain ⟨middle, walked, looped⟩ := rmLoop_cons looped
    have first := step head world middle intact walked
    obtain ⟨-, less⟩ := rmLoop_intact step first.intact looped
    rcases List.mem_cons.mp member with rfl | member
    · exact gone_of_less less (gone world middle intact (less.trans first.less) walked)
    · exact inductionHypothesis member first.intact looped

/-- The loop over the file's directory takes the file, if the path is still there behind it. -/
theorem rmLoop_took
    (step : leak.Steps walk names) (member : leak.name ∈ listed) {world after : World}
    (intact : leak.Intact world.disk)
    (looped : rmLoop walk names listed (dir.under names) world = some after) {links left : Nat}
    {place : Place} (entered : site.disk.enter links place = some (left, leak.place))
    (located : after.disk.locate site.root names = some (links, place)) :
    after.disk.kind (leak.name :: leak.place) = none := by
  refine rmLoop_gone step member (fun before middle intact less walked => ?_) intact looped
  have first := step leak.name before middle intact walked
  by_cases there : before.disk.kind (leak.name :: leak.place) = none
  · exact gone_of_less first.less there
  · refine first.took left ?_
    rw [Disk.locate, less.locate located]
    simp only [intact.enter there entered]

end Loop

/-- What the walk does at a path that is no file's: it gives up when it does not open, and else
goes through the loop and removes what the path leads to. -/
theorem opens_cases {fuel : Nat} {path : Path} {world after : World}
    (walked : (match world.disk.opendir site.root names with
      | none => some { world with retuVal := -1 }
      | some place =>
        match rmLoop (ftwNoChdir site.root dir filePath fuel) names (world.disk.names place) path
            world with
        | none => none
        | some world => some (rmEntry site.root dir path names world)) = some after) :
    world.disk.opendir site.root names = none ∧ after = { world with retuVal := -1 } ∨
      ∃ place middle, world.disk.opendir site.root names = some place ∧
        rmLoop (ftwNoChdir site.root dir filePath fuel) names (world.disk.names place) path world =
          some middle ∧
        after = rmEntry site.root dir path names middle := by
  cases opened : world.disk.opendir site.root names with
  | none =>
    simp only [opened] at walked
    exact Or.inl ⟨rfl, (Option.some.inj walked).symm⟩
  | some place =>
    simp only [opened] at walked
    cases looped : rmLoop (ftwNoChdir site.root dir filePath fuel) names (world.disk.names place)
        path world with
    | none =>
      rw [looped] at walked
      cases walked
    | some middle =>
      rw [looped] at walked
      exact Or.inr ⟨place, middle, rfl, looped, (Option.some.inj walked).symm⟩

/-- What the walk does at a path: it passes over the kept one, gives up on what it cannot open, and
removes a file, or a directory or a link behind the loop over what it leads to. -/
theorem ftwNoChdir_cases {fuel : Nat} {path : Path} {world after : World}
    (walked : ftwNoChdir site.root dir filePath (fuel + 1) path names world = some after) :
    filePath = some path ∧ after = world ∨
      filePath ≠ some path ∧
        (world.disk.lstat site.root names ≠ some .file ∧
            (world.disk.lstat site.root names = none ∨ world.disk.opendir site.root names = none) ∧
            after = { world with retuVal := -1 } ∨
          world.disk.lstat site.root names = some .file ∧
            after = rmEntry site.root dir path names world ∨
          ∃ place middle, world.disk.lstat site.root names ≠ some .file ∧
            world.disk.lstat site.root names ≠ none ∧
            world.disk.opendir site.root names = some place ∧
            rmLoop (ftwNoChdir site.root dir filePath fuel) names (world.disk.names place) path
              world = some middle ∧
            after = rmEntry site.root dir path names middle) := by
  rw [ftwNoChdir] at walked
  by_cases long : rmBufferSize ≤ path.length
  · rw [if_pos long] at walked
    cases walked
  · rw [if_neg long] at walked
    by_cases kept : filePath = some path
    · rw [if_pos kept] at walked
      cases walked
      exact Or.inl ⟨kept, rfl⟩
    · rw [if_neg kept] at walked
      refine Or.inr ⟨kept, ?_⟩
      cases status : world.disk.lstat site.root names with
      | none =>
        rw [status] at walked
        exact Or.inl ⟨(Option.some_ne_none _).symm, Or.inl rfl, (Option.some.inj walked).symm⟩
      | some kind =>
        rw [status] at walked
        have there : some kind ≠ none := Option.some_ne_none kind
        cases kind with
        | file => exact Or.inr (Or.inl ⟨rfl, (Option.some.inj walked).symm⟩)
        | dir =>
          have other : some Kind.dir ≠ some .file := by decide
          rcases opens_cases walked with ⟨shut, same⟩ | ⟨place, middle, opened, looped, same⟩
          · exact Or.inl ⟨other, Or.inr shut, same⟩
          · exact Or.inr (Or.inr ⟨place, middle, other, there, opened, looped, same⟩)
        | link target =>
          have other : some (Kind.link target) ≠ some .file := by
            rintro ⟨⟩
          rcases opens_cases walked with ⟨shut, same⟩ | ⟨place, middle, opened, looped, same⟩
          · exact Or.inl ⟨other, Or.inr shut, same⟩
          · exact Or.inr (Or.inr ⟨place, middle, other, there, opened, looped, same⟩)

theorem less_rmEntry (path : Path) (names : List Name) (world : World) :
    Less (rmEntry site.root dir path names world).disk world.disk := by
  unfold rmEntry
  by_cases root : dir = path
  · rw [if_pos root]
    exact .refl _
  · rw [if_neg root]
    exact less_remove _ _ _

theorem Leak.Intact.rmEntry {world : World} (intact : leak.Intact world.disk) (path : Path)
    (apart : world.disk.kind (leak.name :: leak.place) ≠ none → ∀ links place,
      world.disk.locate site.root names = some (links, place) →
        ¬site.disk.Leads place leak.place) :
    leak.Intact (rmEntry site.root dir path names world).disk := by
  unfold FileLib.rmEntry
  by_cases root : dir = path
  · rw [if_pos root]
    exact intact
  · rw [if_neg root]
    exact intact.remove apart

/-- Of a path that leads to the file, `lstat` says that it is a file or that there is nothing. -/
theorem Leak.Intact.lstat (intact : leak.Intact disk) {links : Nat}
    (located : disk.locate site.root names = some (links, leak.name :: leak.place)) :
    disk.lstat site.root names = none ∧ disk.kind (leak.name :: leak.place) = none ∨
      disk.lstat site.root names = some .file := by
  rw [Disk.lstat, located]
  simp only
  cases kind : disk.kind (leak.name :: leak.place) with
  | none => exact Or.inl ⟨rfl, rfl⟩
  | some kind' =>
    rw [intact.file kind]
    exact Or.inr rfl

/-- A file goes when the walk is at it. -/
theorem Leak.Intact.took {world : World} (intact : leak.Intact world.disk) {links : Nat}
    (located : world.disk.locate site.root names = some (links, leak.name :: leak.place)) :
    (FileLib.rmEntry site.root dir (dir.under names) names world).disk.kind
      (leak.name :: leak.place) = none := by
  cases names with
  | nil =>
    have same : site.root = leak.name :: leak.place :=
      congrArg Prod.snd (Option.some.inj located)
    have isDir := site.rootDir
    rw [same, leak.file] at isDir
    cases isDir
  | cons name outer =>
    rw [FileLib.rmEntry, if_neg (under_ne name outer)]
    simp only [Disk.remove, located]
    rw [if_neg, kind_erase, if_pos rfl]
    rintro ⟨isDir, -⟩
    cases intact.file isDir

/-- What leads to no directory of a file is no file. -/
theorem not_leads_of_file {place other : Place} (file : disk.kind place = some .file) :
    ¬disk.Leads place other := by
  rintro ⟨links, left, entered⟩
  rcases enter_cases entered with ⟨isDir, -⟩ | ⟨fewer, target, -, link, -⟩
  · rw [file] at isDir
    cases isDir
  · rw [file] at link
    cases link

/-- Behind its loop nothing leads to the file's directory while the file is there. -/
theorem not_leads_of_looped {walk : Path → List Name → World → Option World}
    (step : leak.Steps walk names) {world middle : World} (intact : leak.Intact world.disk)
    {place : Place} (opened : world.disk.opendir site.root names = some place)
    (looped : rmLoop walk names (world.disk.names place) (dir.under names) world = some middle)
    (there : middle.disk.kind (leak.name :: leak.place) ≠ none) (links : Nat) (entry : Place)
    (located : middle.disk.locate site.root names = some (links, entry)) :
    ¬site.disk.Leads entry leak.place := by
  rintro ⟨links', left', leads⟩
  obtain ⟨-, less⟩ := rmLoop_intact step intact looped
  rw [Disk.opendir, less.locate located] at opened
  obtain ⟨⟨left, place'⟩, entered, same⟩ := Option.map_eq_some_iff.mp opened
  cases same
  have entered' := intact.less.enter entered
  cases enter_unique entered' leads
  have member : leak.name ∈ world.disk.names leak.place := by
    rw [mem_names]
    exact fun none => there (gone_of_less less none)
  exact there (rmLoop_took step member intact looped entered' located)

/-- What leads to the file's directory is kept by the whole walk while the file is there. -/
theorem ftwNoChdir_walked (leak : Leak site dir filePath) (fuel : Nat) (names : List Name)
    (world after : World) (intact : leak.Intact world.disk)
    (walked : ftwNoChdir site.root dir filePath fuel (dir.under names) names world =
      some after) : leak.Walked names world after := by
  induction fuel generalizing names world after with
  | zero => cases walked
  | succ fuel inductionHypothesis =>
    have step : leak.Steps (ftwNoChdir site.root dir filePath fuel) names :=
      fun name => inductionHypothesis (name :: names)
    rcases ftwNoChdir_cases walked with ⟨kept, rfl⟩ |
      ⟨-, ⟨other, -, rfl⟩ | ⟨file, rfl⟩ |
        ⟨place, middle, other, something, opened, looped, rfl⟩⟩
    · refine ⟨intact, .refl _, fun links located => ?_⟩
      exact absurd (intact.less.locate located) (leak.unkept names links kept)
    · refine ⟨intact, .refl _, fun links located => ?_⟩
      rcases intact.lstat located with ⟨-, none⟩ | file
      · exact none
      · exact absurd file other
    · refine ⟨intact.rmEntry _ fun _ links place located => ?_, less_rmEntry _ _ _,
        fun links located => intact.took located⟩
      rw [Disk.lstat, located] at file
      exact not_leads_of_file (intact.less.some file)
    · obtain ⟨intact', less⟩ := rmLoop_intact step intact looped
      refine ⟨intact'.rmEntry _ (not_leads_of_looped step intact opened looped),
        (less_rmEntry _ _ _).trans less, fun links located => ?_⟩
      rcases intact.lstat located with ⟨none, -⟩ | file
      · exact absurd none something
      · exact absurd file other

/-! ### The link is come to -/

theorem Leak.Intact.link (intact : leak.Intact disk)
    (there : disk.kind (leak.name :: leak.place) ≠ none) :
    disk.kind (leak.below ++ site.root) = some (.link leak.target) :=
  (intact.held there _ ⟨_, _, leak.leads⟩).trans leak.link

/-- While the file is there, every place on the way to the link is there. -/
theorem Leak.Intact.entry (intact : leak.Intact disk)
    (there : disk.kind (leak.name :: leak.place) ≠ none) (within : names <:+ leak.below) :
    disk.kind (names ++ site.root) ≠ none := by
  have last : disk.kind (leak.below ++ site.root) ≠ none := by
    rw [intact.link there]
    exact Option.some_ne_none _
  by_cases same : names = leak.below
  · rwa [same]
  · rw [intact.closed.holds last within same]
    exact Option.some_ne_none _

theorem Leak.Intact.way (intact : leak.Intact disk)
    (there : disk.kind (leak.name :: leak.place) ≠ none) (within : names <:+ leak.below) :
    Way disk site.root names :=
  intact.closed.way (intact.entry there within)

/-- What the walk opens on the way to the link: the directories, and the file's by way of the
link. -/
theorem Leak.Intact.opendir (intact : leak.Intact disk)
    (there : disk.kind (leak.name :: leak.place) ≠ none) (within : names <:+ leak.below) :
    disk.lstat site.root names ≠ some .file ∧ disk.lstat site.root names ≠ none ∧
      disk.opendir site.root names =
        some (if names = leak.below then leak.place else names ++ site.root) := by
  have way := intact.way there within
  rw [way.lstat, way.opendir]
  by_cases same : names = leak.below
  · subst same
    rw [intact.link there, intact.enter there leak.leads, if_pos rfl]
    exact ⟨nofun, nofun, rfl⟩
  · have last : disk.kind (leak.below ++ site.root) ≠ none :=
      intact.entry there (List.suffix_refl _)
    have isDir := intact.closed.holds last within same
    rw [isDir, enter_dir isDir, if_neg same]
    exact ⟨nofun, nofun, rfl⟩

/-- The walk of a directory that the link is in, or of the link itself, takes the file. -/
theorem ftwNoChdir_takes (leak : Leak site dir filePath) (fuel : Nat) (names : List Name)
    (world after : World) (within : names <:+ leak.below) (intact : leak.Intact world.disk)
    (walked : ftwNoChdir site.root dir filePath fuel (dir.under names) names world = some after) :
    after.disk.kind (leak.name :: leak.place) = none := by
  induction fuel generalizing names world after with
  | zero => cases walked
  | succ fuel inductionHypothesis =>
    by_contra there
    have whole := ftwNoChdir_walked leak (fuel + 1) names world after intact walked
    have before : world.disk.kind (leak.name :: leak.place) ≠ none :=
      fun none => there (gone_of_less whole.less none)
    obtain ⟨noFile, something, opens⟩ := intact.opendir before within
    rcases ftwNoChdir_cases walked with ⟨kept, -⟩ |
      ⟨-, ⟨-, none | shut, -⟩ | ⟨file, -⟩ | ⟨place, middle, -, -, opened, looped, rfl⟩⟩
    · exact leak.reached (stopped_iff.mpr ⟨names, within, kept⟩)
    · exact something none
    · rw [opens] at shut
      cases shut
    · exact noFile file
    · have step : leak.Steps (ftwNoChdir site.root dir filePath fuel) names :=
        fun name => ftwNoChdir_walked leak fuel (name :: names)
      obtain ⟨intact', -⟩ := rmLoop_intact step intact looped
      have still : middle.disk.kind (leak.name :: leak.place) ≠ none :=
        fun none => there (gone_of_less (less_rmEntry _ _ _) none)
      rw [opens] at opened
      cases opened
      by_cases same : names = leak.below
      · subst same
        rw [if_pos rfl] at looped
        have member : leak.name ∈ world.disk.names leak.place := mem_names.mpr before
        exact still (rmLoop_took step member intact looped leak.leads
          (intact'.way still (List.suffix_refl _)).locate)
      · rw [if_neg same] at looped
        obtain ⟨name, inside⟩ := exists_child within same
        have member : name ∈ world.disk.names (names ++ site.root) :=
          mem_names.mpr (intact.entry before inside)
        refine still (rmLoop_gone step member (fun world' after' intact' _ walked' => ?_) intact
          looped)
        exact inductionHypothesis (name :: names) world' after' inside intact' walked'

/-- So the removal takes something that it should not. -/
theorem not_removes_of_leak (leak : Leak site dir filePath) : ¬Removes site dir filePath := by
  rintro ⟨after, value, called, below, beside⟩
  have left : after.kind (leak.name :: leak.place) = site.disk.kind (leak.name :: leak.place) := by
    by_cases inside : ∃ names, names ≠ [] ∧ leak.name :: leak.place = names ++ site.root
    · obtain ⟨names, nonempty, same⟩ := inside
      rw [same]
      exact (below names nonempty).1 (leak.spared names nonempty same)
    · exact beside _ fun names nonempty same => inside ⟨names, nonempty, same⟩
  rw [rmFileSelect] at called
  cases walked : ftwNoChdir site.root dir filePath rmBufferSize dir [] ⟨site.disk, 0⟩ with
  | none =>
    rw [walked] at called
    cases called
  | some world =>
    rw [walked] at called
    cases called
    have gone := ftwNoChdir_takes leak rmBufferSize [] ⟨site.disk, 0⟩ world List.nil_suffix
      leak.intact_start walked
    rw [gone, leak.file] at left
    cases left

/-- Where links lead to no directory, the removal takes exactly what it should when the walk is
held up where it should be. Where one leads to a directory with a file in it that is not to be
removed, it takes too much. -/
theorem rmFileSelect_removes (site : Site) (dir : Path) (filePath : Option Path) :
    (Shut site dir filePath → (Removes site dir filePath ↔ Orderly site dir filePath)) ∧
      (Leak site dir filePath → ¬Removes site dir filePath) :=
  ⟨removes_iff_orderly, not_removes_of_leak⟩

end Leak

/-! ### Two disks -/

/-- What holds an entry is a directory when that is so of all entries. -/
theorem closed_of_entries {disk : Disk}
    (all : ∀ place ∈ disk.entries.map Prod.fst, disk.kind place.tail = some .dir) (name : Name)
    (place : Place) (entry : disk.kind (name :: place) ≠ none) : disk.kind place = some .dir :=
  all (name :: place) (kind_ne_none.mp entry)

/-- A place below the directory is one of the entries' places, cut. -/
theorem Site.mem_cut {site : Site} {below : List Name} (entry : site.kind below ≠ none) :
    below ∈ (site.disk.entries.map Prod.fst).map fun place =>
      place.take (place.length - site.root.length) := by
  refine List.mem_map.mpr ⟨below ++ site.root, kind_ne_none.mp entry, ?_⟩
  rw [List.length_append, Nat.add_sub_cancel]
  exact List.take_left' rfl

/-- The names of the directory that is cleared, of a file in it, of a directory that is kept and
of a link, and of a directory beside. -/
def nameD : Name := ⟨['d'], by decide, by decide⟩
def nameA : Name := ⟨['a'], a_plain, a_proper⟩
def nameK : Name := ⟨['k'], by decide, by decide⟩
def nameL : Name := ⟨['l'], by decide, by decide⟩
def nameO : Name := ⟨['o'], by decide, by decide⟩

/-- A file and a directory that is kept, with a link in it to the directory that is cleared. -/
def tidy : Site where
  disk :=
    { entries := [([], .dir), ([nameD], .dir), ([nameA, nameD], .file), ([nameK, nameD], .dir),
        ([nameL, nameK, nameD], .link [nameD])]
      distinct := by decide }
  root := [nameD]
  rootDir := rfl
  closed := closed_of_entries (by decide)

/-- A link in the directory to a directory beside it, which has a file in it. -/
def leaking : Site where
  disk :=
    { entries := [([], .dir), ([nameD], .dir), ([nameL, nameD], .link [nameO]), ([nameO], .dir),
        ([nameA, nameO], .file)]
      distinct := by decide }
  root := [nameD]
  rootDir := rfl
  closed := closed_of_entries (by decide)

theorem not_below_leaking (below : List Name) : [nameA, nameO] ≠ below ++ leaking.root := by
  intro same
  have last := congrArg List.getLast? same
  rw [List.getLast?_append] at last
  have same : some nameO = some nameD := last
  exact absurd same (by decide)

/-- The file beside is behind the link. -/
def beside : Leak leaking ['/', 'd'] none where
  below := [nameL]
  target := [nameO]
  link := rfl
  reached := by
    rintro (kept | kept)
    · cases kept
    · cases kept
  place := [nameO]
  left := 39
  leads := rfl
  name := nameA
  file := rfl
  spared := fun below _ same => absurd same (not_below_leaking below)
  unkept := fun _ _ kept => absurd kept (Option.some_ne_none _).symm

theorem tidy_removes_leaking_not : Removes tidy ['/', 'd'] (some ['/', 'd', '/', 'k']) ∧
    ¬Removes leaking ['/', 'd'] none := by
  have places : ∀ below, tidy.kind below ≠ none →
      below = [] ∨ below = [] ∨ below = [nameA] ∨ below = [nameK] ∨ below = [nameL, nameK] := by
    intro below entry
    have listed : below ∈ [[], [], [nameA], [nameK], [nameL, nameK]] := tidy.mem_cut entry
    simpa only [List.mem_cons, List.not_mem_nil, or_false] using listed
  have behind : Stopped ['/', 'd'] (some ['/', 'd', '/', 'k']) [nameL, nameK] :=
    Or.inr (Or.inl rfl)
  have links : ∀ below target, tidy.kind below = some (.link target) →
      Stopped ['/', 'd'] (some ['/', 'd', '/', 'k']) below := by
    intro below target link
    have entry : tidy.kind below ≠ none := by
      rw [link]
      exact Option.some_ne_none _
    rcases places below entry with rfl | rfl | rfl | rfl | rfl
    · cases (show some Kind.dir = some (.link target) from link)
    · cases (show some Kind.dir = some (.link target) from link)
    · cases (show some Kind.file = some (.link target) from link)
    · cases (show some Kind.dir = some (.link target) from link)
    · exact behind
  refine ⟨((rmFileSelect_removes tidy _ _).1 fun below target link free => ?_).mpr
    ⟨?_, ?_, ?_, ?_⟩, (rmFileSelect_removes leaking _ none).2 beside⟩
  · exact absurd (links below target link) free
  · intro below _ entry _
    rcases places below entry with rfl | rfl | rfl | rfl | rfl <;> decide
  · rintro ⟨kept, given, leads⟩
    rw [Option.some.injEq] at given
    subst given
    exact absurd leads.trans_length (by decide)
  · exact fun _ => links
  · intro _ below _ _ kept given _
    rw [Option.some.injEq] at given
    subst given
    exact ⟨[nameK], by decide, rfl⟩

/-- Every call does what it should, which is not so: the file beside the directory goes. -/
theorem beside_removed : ¬∀ site dir filePath, Removes site dir filePath := by
  intro all
  obtain ⟨after, value, called, -, elsewhere⟩ := all leaking ['/', 'd'] none
  have gone : (rmFileSelect leaking.disk leaking.root ['/', 'd'] none).map
      (fun result => result.1.kind [nameA, nameO]) = some none := rfl
  rw [called] at gone
  have left : after.kind [nameA, nameO] = some .file :=
    elsewhere _ fun below _ => not_below_leaking below
  rw [Option.map_some, left] at gone
  cases gone

end ExmOnvif.FileLib
