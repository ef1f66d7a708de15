/-
This file is about which nodes the walk tells its callback of, and in which order.

What it should tell is a list: the tree in alphabetical pre-order, without what lies too deep
or under a directory that was passed over, up to the node at which the callback ends the walk.
What it does tell is another list of the same shape, for a directory that is passed over leaves
the level one too high for all that come after it. The two are one as long as no directory is
near enough to the bound to notice.
-/

import ExmOnvif.FileLib.FtwSort

namespace ExmOnvif.FileLib

/-! ### Up to the end of a walk -/

section UpTo

variable {Value Other : Type}

/-- A list up to the first value that stops, which is the last one then. -/
def upTo (stop : Value → Bool) : List Value → List Value
  | [] => []
  | value :: rest => if stop value then [value] else value :: upTo stop rest

variable {stop : Value → Bool} {values rest : List Value}

theorem upTo_append :
    upTo stop (values ++ rest) =
      upTo stop values ++ if values.any stop then [] else upTo stop rest := by
  induction values with
  | nil => rfl
  | cons value values inductionHypothesis =>
    rw [List.cons_append, upTo, upTo, List.any_cons]
    cases stop value with
    | true => rfl
    | false =>
      rw [if_neg Bool.false_ne_true, if_neg Bool.false_ne_true, inductionHypothesis,
        Bool.false_or]
      rfl

theorem mem_of_mem_upTo {value : Value} (member : value ∈ upTo stop values) : value ∈ values := by
  induction values with
  | nil => exact member
  | cons first values inductionHypothesis =>
    rw [upTo] at member
    split at member
    · rw [List.mem_singleton.mp member]
      exact List.mem_cons_self
    · exact List.mem_cons.mpr ((List.mem_cons.mp member).imp_right inductionHypothesis)

theorem upTo_of_none (none : values.any stop = false) : upTo stop values = values := by
  induction values with
  | nil => rfl
  | cons value values inductionHypothesis =>
    rw [List.any_cons, Bool.or_eq_false_iff] at none
    rw [upTo, none.1, if_neg Bool.false_ne_true, inductionHypothesis none.2]

theorem any_upTo : (upTo stop values).any stop = values.any stop := by
  induction values with
  | nil => rfl
  | cons value values inductionHypothesis =>
    rw [upTo, List.any_cons]
    cases stops : stop value with
    | true => rw [if_pos rfl, List.any_cons, stops, Bool.true_or, Bool.true_or]
    | false => rw [if_neg Bool.false_ne_true, List.any_cons, stops, inductionHypothesis]

theorem map_upTo (image : Other → Value) (others : List Other) :
    (upTo (fun other => stop (image other)) others).map image = upTo stop (others.map image) := by
  induction others with
  | nil => rfl
  | cons other others inductionHypothesis =>
    rw [List.map_cons, upTo, upTo]
    cases stop (image other) with
    | true => rfl
    | false =>
      rw [if_neg Bool.false_ne_true, if_neg Bool.false_ne_true, List.map_cons,
        inductionHypothesis]

/-- The only value that stops in such a list is the first one of the whole. -/
theorem find_upTo {value : Value} (member : value ∈ upTo stop values)
    (stops : stop value = true) : (upTo stop values).find? stop = some value := by
  induction values with
  | nil => cases member
  | cons first values inductionHypothesis =>
    rw [upTo] at member ⊢
    cases early : stop first with
    | true =>
      rw [early, if_pos rfl] at member
      rw [if_pos rfl, List.find?_cons_of_pos early, List.mem_singleton.mp member]
    | false =>
      rw [early, if_neg Bool.false_ne_true] at member
      rw [if_neg Bool.false_ne_true, List.find?_cons_of_neg (Bool.eq_false_iff.mp early)]
      refine inductionHypothesis ((List.mem_cons.mp member).resolve_left ?_)
      rintro rfl
      exact Bool.noConfusion (stops.symm.trans early)

/-- Two splits of one list by a property are one split. -/
theorem append_inj_of_apart {holds : Value → Prop} {left right left' right' : List Value}
    (same : left ++ right = left' ++ right') (inside : ∀ value ∈ left, holds value)
    (inside' : ∀ value ∈ left', holds value) (outside : ∀ value ∈ right, ¬holds value)
    (outside' : ∀ value ∈ right', ¬holds value) : left = left' ∧ right = right' := by
  induction left generalizing left' with
  | nil =>
    cases left' with
    | nil => exact ⟨rfl, same⟩
    | cons value left' =>
      have here : value ∈ right := by
        rw [List.nil_append] at same
        exact same ▸ List.mem_cons_self
      exact absurd (inside' value List.mem_cons_self) (outside value here)
  | cons value left inductionHypothesis =>
    cases left' with
    | nil =>
      have here : value ∈ right' := by
        rw [List.nil_append] at same
        exact same ▸ List.mem_cons_self
      exact absurd (inside value List.mem_cons_self) (outside' value here)
    | cons value' left' =>
      rw [List.cons_append, List.cons_append, List.cons.injEq] at same
      obtain ⟨rfl, same⟩ := same
      obtain ⟨rfl, rest⟩ := inductionHypothesis same
        (fun other member => inside other (List.mem_cons_of_mem _ member))
        (fun other member => inside' other (List.mem_cons_of_mem _ member))
      exact ⟨rfl, rest⟩

end UpTo

/-! ### What the walk should tell and what it tells -/

/-- A node that the walk comes to, and whether it visits it. -/
structure Seen where
  path : Path
  flag : Flag
  visited : Bool

/-- The same with the number of directories on the way, the node's own included. -/
structure Step extends Seen where
  level : Nat

section Lists

variable (fn : Path → Flag → Int) (depth : Int)

/-- The callback ends the walk at a node. -/
def Seen.stops (seen : Seen) : Bool :=
  seen.visited && decide (fn seen.path seen.flag ≠ 0) &&
    decide (fn seen.path seen.flag ≠ fnReturnContinue)

/-- The callback passes over a directory. -/
def Seen.passes (seen : Seen) : Bool :=
  seen.visited && decide (seen.flag = .ftwD) &&
    decide (fn seen.path seen.flag = fnReturnContinue)

/-- The number of directories that are passed over. -/
def passed (seen : List Seen) : Nat :=
  seen.countP (Seen.passes fn)

/-- The calls of the callback. -/
def called (seen : List Seen) : List (Path × Flag) :=
  (seen.filter Seen.visited).map fun node => (node.path, node.flag)

mutual

/-- The nodes of a tree in pre-order that lie under no directory that is passed over and under
none that is too deep; `level` directories are above. -/
def Node.reached : Node → Path → Nat → List Step
  | .file, path, level => [⟨⟨path, .ftwF, true⟩, level⟩]
  | .dir entries, path, level =>
    ⟨⟨path, .ftwD, decide ((level : Int) + 1 ≤ depth)⟩, level + 1⟩ ::
      if (level : Int) + 1 ≤ depth ∧ fn path .ftwD ≠ fnReturnContinue then
        entries.reached path (level + 1)
      else []

/-- The same of a listing. -/
def Entries.reached : Entries → Path → Nat → List Step
  | .nil, _, _ => []
  | .cons name node rest, path, level =>
    node.reached (path.child name) level ++ rest.reached path level

end

/-- What the walk should come to: all of it up to the node that ends it. -/
def Node.due (node : Node) (dir : Path) : List Step :=
  upTo (fun step => step.toSeen.stops fn) (node.reached fn depth dir 0)

mutual

/-- The nodes that the walk comes to with the level at a count: after a directory that was
passed over the count is one higher. -/
def Node.counted : Node → Path → Nat → List Seen
  | .file, path, _ => [⟨path, .ftwF, true⟩]
  | .dir entries, path, count =>
    ⟨path, .ftwD, decide ((count : Int) + 1 ≤ depth)⟩ ::
      if (count : Int) + 1 ≤ depth ∧ fn path .ftwD ≠ fnReturnContinue then
        entries.counted path (count + 1)
      else []

/-- The same of a listing. -/
def Entries.counted : Entries → Path → Nat → List Seen
  | .nil, _, _ => []
  | .cons name node rest, path, count =>
    node.counted (path.child name) count ++
      rest.counted path (count + passed fn (node.counted (path.child name) count))

end

/-- Every directory that should be visited stays within the bound with the directories added
that were passed over before it. -/
def Levels : Nat → List Step → Prop
  | _, [] => True
  | extra, step :: rest =>
    (step.flag = .ftwD → step.visited = true → (step.level : Int) + extra ≤ depth) ∧
      Levels (extra + if step.toSeen.passes fn then 1 else 0) rest

/-- `Levels` can be checked. -/
def Levels.decide : ∀ (extra : Nat) (steps : List Step), Decidable (Levels fn depth extra steps)
  | _, [] => isTrue trivial
  | extra, step :: rest =>
    have := Levels.decide (extra + if step.toSeen.passes fn then 1 else 0) rest
    inferInstanceAs (Decidable (_ ∧ _))

instance (extra : Nat) (steps : List Step) : Decidable (Levels fn depth extra steps) :=
  Levels.decide fn depth extra steps

end Lists

/-! ### The walk, node after node -/

section Follow

variable (fn : Path → Flag → Int) (depth : Int)

/-- What becomes of the walk at one node, and the value that ends it, if it does. -/
def Walk.meet (node : Seen) (walk : Walk) : Option Int × Walk :=
  if node.visited then
    if node.stops fn then
      (some (fn node.path node.flag),
        (walk.tell (some fn) node.path node.flag).2.setVal (fn node.path node.flag))
    else if fn node.path node.flag = fnReturnContinue then
      (none, ((walk.tell (some fn) node.path node.flag).2.setVal fnReturnContinue).move
        (if node.flag = .ftwD then 1 else 0))
    else (none, (walk.tell (some fn) node.path node.flag).2)
  else (none, walk)

/-- Goes through nodes one after the other, as the walk does: the value that ends it, if one
does, and the shared structure. -/
def follow : List Seen → Walk → Option (Option Int × Walk)
  | [], walk => some (none, walk)
  | node :: rest, walk =>
    if bufferSize ≤ node.path.length then none
    else
      match (walk.meet fn node).1 with
      | some value => some (some value, (walk.meet fn node).2)
      | none => follow rest (walk.meet fn node).2

/-- A walk that goes on, with the level at a count. -/
structure Walk.Running (walk : Walk) (count : Nat) : Prop where
  retuFlag : walk.info.retuFlag = false
  rmEmptyFlag : walk.info.rmEmptyFlag = false
  retuVal : walk.info.retuVal = 0 ∨ walk.info.retuVal = fnReturnContinue
  ftwDirNo : walk.info.ftwDirNo = count

variable {fn depth} {node : Seen} {seen rest : List Seen} {walk after : Walk} {count : Nat}

theorem passed_cons :
    passed fn (node :: seen) = (if node.passes fn then 1 else 0) + passed fn seen := by
  rw [passed, List.countP_cons, Nat.add_comm]
  rfl

theorem stops_iff :
    node.stops fn = true ↔ node.visited = true ∧ fn node.path node.flag ≠ 0 ∧
      fn node.path node.flag ≠ fnReturnContinue := by
  rw [Seen.stops, Bool.and_eq_true, Bool.and_eq_true, decide_eq_true_eq, decide_eq_true_eq,
    and_assoc]

/-- A node at which the callback returns zero. -/
theorem meet_zero (zero : fn node.path node.flag = 0) (visited : node.visited = true) :
    walk.meet fn node = (none, (walk.tell (some fn) node.path node.flag).2) := by
  have goes : ¬node.stops fn = true := fun stops => (stops_iff.mp stops).2.1 zero
  have other : ¬fn node.path node.flag = fnReturnContinue := by
    rw [zero]
    decide
  rw [Walk.meet, if_pos visited, if_neg goes, if_neg other]

/-- A node at which the callback says to go on beside it. -/
theorem meet_continue (continues : fn node.path node.flag = fnReturnContinue)
    (visited : node.visited = true) :
    walk.meet fn node = (none,
      ((walk.tell (some fn) node.path node.flag).2.setVal fnReturnContinue).move
        (if node.flag = .ftwD then 1 else 0)) := by
  have goes : ¬node.stops fn = true := fun stops => (stops_iff.mp stops).2.2 continues
  rw [Walk.meet, if_pos visited, if_neg goes, if_pos continues]

/-- A directory that is too deep. -/
theorem meet_deep (deep : node.visited = false) : walk.meet fn node = (none, walk) :=
  if_neg (Bool.eq_false_iff.mp deep)

/-- A node at which the callback ends the walk. -/
theorem meet_stop (stops : node.stops fn = true) :
    walk.meet fn node = (some (fn node.path node.flag),
      (walk.tell (some fn) node.path node.flag).2.setVal (fn node.path node.flag)) := by
  rw [Walk.meet, if_pos (stops_iff.mp stops).1, if_pos stops]

theorem called_append : called (seen ++ rest) = called seen ++ called rest := by
  rw [called, List.filter_append, List.map_append]
  rfl

theorem meet_value :
    (walk.meet fn node).1 = if node.stops fn then some (fn node.path node.flag) else none := by
  unfold Walk.meet
  by_cases visited : node.visited = true
  · rw [if_pos visited]
    split_ifs <;> rfl
  · have goes : ¬node.stops fn = true := by
      rw [Seen.stops, Bool.eq_false_iff.mpr visited]
      exact Bool.false_ne_true
    rw [if_neg visited, if_neg goes]

theorem meet_calls : (walk.meet fn node).2.calls = walk.calls ++ called [node] := by
  unfold Walk.meet called
  by_cases visited : node.visited = true
  · rw [if_pos visited, List.filter_cons_of_pos visited]
    split_ifs <;> rfl
  · rw [if_neg visited, List.filter_cons_of_neg visited]
    exact (List.append_nil _).symm

theorem Walk.Running.meet (running : walk.Running count) (goes : node.stops fn = false) :
    (walk.meet fn node).2.Running (count + if node.passes fn then 1 else 0) := by
  have none : ¬node.stops fn = true := Bool.eq_false_iff.mp goes
  unfold Walk.meet
  by_cases visited : node.visited = true
  · rw [if_pos visited, if_neg none, Seen.passes, visited, Bool.true_and]
    by_cases continues : fn node.path node.flag = fnReturnContinue
    · rw [if_pos continues, decide_eq_true continues, Bool.and_true]
      refine ⟨running.retuFlag, running.rmEmptyFlag, Or.inr rfl, ?_⟩
      have level := running.ftwDirNo
      by_cases dir : node.flag = .ftwD
      · rw [if_pos dir, if_pos (decide_eq_true dir)]
        exact congrArg (· + 1) level
      · rw [if_neg dir, if_neg (by rw [decide_eq_false dir]; exact Bool.false_ne_true)]
        exact (Int.add_zero _).trans level
    · rw [if_neg continues, decide_eq_false continues, Bool.and_false]
      exact ⟨running.retuFlag, running.rmEmptyFlag, running.retuVal, running.ftwDirNo⟩
  · rw [if_neg visited, Seen.passes, Bool.eq_false_iff.mpr visited, Bool.false_and]
    exact running

theorem follow_append :
    follow fn (seen ++ rest) walk =
      match follow fn seen walk with
      | none => none
      | some (some value, walk) => some (some value, walk)
      | some (none, walk) => follow fn rest walk := by
  induction seen generalizing walk with
  | nil => rfl
  | cons node seen inductionHypothesis =>
    rw [List.cons_append, follow, follow]
    by_cases long : bufferSize ≤ node.path.length
    · rw [if_pos long, if_pos long]
    · rw [if_neg long, if_neg long]
      cases (walk.meet fn node).1 with
      | some value => rfl
      | none => exact inductionHypothesis

/-- Behind nodes that do not end it the walk goes on, one level up for each directory passed. -/
theorem follow_running (running : walk.Running count)
    (ended : follow fn seen walk = some (none, after)) :
    after.Running (count + passed fn seen) := by
  induction seen generalizing walk count with
  | nil =>
    cases ended
    exact running
  | cons node seen inductionHypothesis =>
    rw [follow] at ended
    by_cases long : bufferSize ≤ node.path.length
    · rw [if_pos long] at ended
      cases ended
    · rw [if_neg long, meet_value] at ended
      cases goes : node.stops fn with
      | true =>
        rw [goes, if_pos rfl] at ended
        cases ended
      | false =>
        rw [goes, if_neg Bool.false_ne_true] at ended
        have next := inductionHypothesis (running.meet goes) ended
        rwa [passed_cons, ← Nat.add_assoc]

/-- A walk whose paths all go into the buffers, up to its end. -/
theorem follow_short
    (short : ∀ node ∈ upTo (Seen.stops fn) seen, node.path.length < bufferSize) :
    ∃ after, follow fn seen walk =
        some (((upTo (Seen.stops fn) seen).find? (Seen.stops fn)).map fun node =>
          fn node.path node.flag, after) ∧
      after.calls = walk.calls ++ called (upTo (Seen.stops fn) seen) := by
  induction seen generalizing walk with
  | nil => exact ⟨walk, rfl, (List.append_nil _).symm⟩
  | cons node seen inductionHypothesis =>
    rw [upTo] at short ⊢
    cases stops : node.stops fn with
    | true =>
      rw [stops, if_pos rfl] at short
      have within : ¬bufferSize ≤ node.path.length :=
        Nat.not_le.mpr (short node List.mem_cons_self)
      refine ⟨(walk.meet fn node).2, ?_, meet_calls⟩
      rw [follow, if_neg within, meet_value, stops, if_pos rfl, if_pos rfl,
        List.find?_cons_of_pos stops]
      rfl
    | false =>
      rw [stops, if_neg Bool.false_ne_true] at short
      have within : ¬bufferSize ≤ node.path.length :=
        Nat.not_le.mpr (short node List.mem_cons_self)
      obtain ⟨after, ended, calls⟩ := @inductionHypothesis (walk.meet fn node).2
        fun other member => short other (List.mem_cons_of_mem _ member)
      refine ⟨after, ?_, ?_⟩
      · rw [follow, if_neg within, meet_value, stops, if_neg Bool.false_ne_true,
          if_neg Bool.false_ne_true, List.find?_cons_of_neg (Bool.eq_false_iff.mp stops)]
        exact ended
      · rw [calls, meet_calls, if_neg Bool.false_ne_true, List.append_assoc, ← called_append]
        rfl

/-- A path that does not go into the buffers before the end. -/
theorem follow_long
    (long : ∃ node ∈ upTo (Seen.stops fn) seen, bufferSize ≤ node.path.length) :
    follow fn seen walk = none := by
  induction seen generalizing walk with
  | nil =>
    obtain ⟨node, member, -⟩ := long
    cases member
  | cons node seen inductionHypothesis =>
    obtain ⟨other, member, extra⟩ := long
    rw [follow]
    by_cases here : bufferSize ≤ node.path.length
    · exact if_pos here
    · have behind : other ≠ node := by
        rintro rfl
        exact here extra
      rw [if_neg here, meet_value]
      rw [upTo] at member
      cases stops : node.stops fn with
      | true =>
        rw [stops, if_pos rfl] at member
        exact absurd (List.mem_singleton.mp member) behind
      | false =>
        rw [stops, if_neg Bool.false_ne_true] at member
        rw [if_neg Bool.false_ne_true]
        exact inductionHypothesis ⟨other, (List.mem_cons.mp member).resolve_left behind, extra⟩

/-- A value that ends a walk is none of the two that do not. -/
theorem follow_stop {value : Int} (ended : follow fn seen walk = some (some value, after)) :
    value ≠ fnReturnContinue ∧ value ≠ 0 := by
  induction seen generalizing walk with
  | nil => cases ended
  | cons node seen inductionHypothesis =>
    rw [follow] at ended
    by_cases long : bufferSize ≤ node.path.length
    · rw [if_pos long] at ended
      cases ended
    · rw [if_neg long, meet_value] at ended
      cases stops : node.stops fn with
      | true =>
        rw [stops, if_pos rfl] at ended
        cases ended
        rw [Seen.stops, Bool.and_eq_true, Bool.and_eq_true] at stops
        exact ⟨of_decide_eq_true stops.2, of_decide_eq_true stops.1.2⟩
      | false =>
        rw [stops, if_neg Bool.false_ne_true] at ended
        exact inductionHypothesis ended

theorem meet_move (levels : Int) :
    (walk.move levels).meet fn node =
      ((walk.meet fn node).1, (walk.meet fn node).2.move levels) := by
  unfold Walk.meet
  split_ifs
  · rfl
  · exact congrArg (Prod.mk none) (congrArg (fun level => Walk.mk ⟨_, _, _, level⟩ _)
      (Int.add_right_comm _ _ _))
  · exact congrArg (Prod.mk none) (congrArg (fun level => Walk.mk ⟨_, _, _, level⟩ _)
      (Int.add_right_comm _ _ _))
  · rfl
  · rfl

/-- The levels above do not matter to the nodes below. -/
theorem follow_move (levels : Int) :
    follow fn seen (walk.move levels) =
      (follow fn seen walk).map fun ended => (ended.1, ended.2.move levels) := by
  induction seen generalizing walk with
  | nil => rfl
  | cons node seen inductionHypothesis =>
    rw [follow, follow, meet_move]
    by_cases long : bufferSize ≤ node.path.length
    · rw [if_pos long, if_pos long]
      rfl
    · rw [if_neg long, if_neg long]
      cases (walk.meet fn node).1 with
      | some value => rfl
      | none => exact inductionHypothesis

theorem move_zero : walk.move 0 = walk :=
  congrArg (fun level => Walk.mk ⟨_, _, _, level⟩ _) (Int.add_zero _)

theorem move_back : (walk.move 1).move (-1) = walk :=
  congrArg (fun level => Walk.mk ⟨_, _, _, level⟩ _) (Int.add_neg_cancel_right _ _)

theorem Walk.Running.setEmpty (running : walk.Running count) : walk.setEmpty false = walk := by
  have flag := running.rmEmptyFlag
  unfold Walk.setEmpty
  rw [← flag]

/-! ### The walk of the code is that -/

/-- What the walk of a node makes of what going through its nodes makes. -/
def NodeRun (node : Node) (result : Option (Option Node × Int × Walk)) :
    Option (Option Int × Walk) → Prop
  | none => result = none
  | some (none, after) => result = some (some node, after.info.retuVal, after)
  | some (some value, after) =>
    ∃ last, result = some (some node, value, last) ∧ last.calls = after.calls

/-- The same of a listing. -/
def EntriesRun (entries : Entries) (dirNo : Int)
    (result : Option (Entries × Option Int × Int × Walk)) : Option (Option Int × Walk) → Prop
  | none => result = none
  | some (none, after) => result = some (entries, none, dirNo, after)
  | some (some value, after) =>
    ∃ last, result = some (entries, some value, dirNo, last) ∧ last.calls = after.calls

theorem counted_long {node : Node} {path : Path} (long : bufferSize ≤ path.length) :
    follow fn (node.counted fn depth path count) walk = none := by
  cases node with
  | file =>
    rw [Node.counted, follow]
    exact if_pos long
  | dir entries =>
    rw [Node.counted, follow]
    exact if_pos long

/-- A file, which is only told of. -/
theorem checkDir_file (path : Path) (running : walk.Running count) :
    NodeRun .file (checkDir (some fn) depth false .file path walk)
      (follow fn (Node.file.counted fn depth path count) walk) := by
  rw [Node.counted, follow, checkDir]
  simp only [running.retuFlag, if_neg Bool.false_ne_true]
  by_cases long : bufferSize ≤ path.length
  · rw [if_pos long, if_pos long]
    rfl
  · rw [if_neg long, if_neg long]
    by_cases zero : fn path .ftwF = 0
    · rw [meet_zero zero rfl]
      exact if_neg (not_not.mpr zero)
    · by_cases continues : fn path .ftwF = fnReturnContinue
      · rw [meet_continue continues rfl]
        have answer : (walk.tell (some fn) path .ftwF).1 = fnReturnContinue := continues
        have same : ¬Flag.ftwF = Flag.ftwD := Flag.noConfusion
        refine (if_pos zero).trans ?_
        rw [answer, if_neg same, move_zero]
        rfl
      · rw [meet_stop (stops_iff.mpr ⟨rfl, zero, continues⟩)]
        exact ⟨_, if_pos zero, rfl⟩

/-- A directory that was listed one level further down. -/
theorem nodeRun_of_entries {entries : Entries} {dirNo : Int}
    {result : Option (Entries × Option Int × Int × Walk)}
    {ended : Option (Option Int × Walk)}
    (told : EntriesRun entries dirNo result
      (ended.map fun ended => (ended.1, ended.2.move 1))) :
    NodeRun (.dir entries) (leave false result) ended := by
  cases ended with
  | none =>
    have undefined : result = none := told
    rw [undefined]
    rfl
  | some ended =>
    obtain ⟨value, after⟩ := ended
    cases value with
    | none =>
      have listed : result = some (entries, none, dirNo, after.move 1) := told
      have kept : ¬(dirNo = 2 ∧ false = true) := fun both => Bool.noConfusion both.2
      rw [listed, leave, leaveDir]
      simp only [if_neg kept, move_back]
      rfl
    | some value =>
      obtain ⟨last, listed, calls⟩ := told
      rw [listed]
      exact ⟨last, rfl, calls⟩

/-- A directory, from its listing. -/
theorem checkDir_dir {entries : Entries} (path : Path) (running : walk.Running count)
    (listed : ∀ walk : Walk, walk.Running (count + 1) →
      EntriesRun entries (entries.count + 2)
        (checkEntries (some fn) depth false entries path (entries.count + 2) walk)
        (follow fn (entries.counted fn depth path (count + 1)) walk)) :
    NodeRun (.dir entries) (checkDir (some fn) depth false (.dir entries) path walk)
      (follow fn ((Node.dir entries).counted fn depth path count) walk) := by
  rw [Node.counted, follow, checkDir]
  simp only [running.retuFlag, if_neg Bool.false_ne_true]
  by_cases long : bufferSize ≤ path.length
  · rw [if_pos long, if_pos long]
    rfl
  · rw [if_neg long, if_neg long]
    have level : (walk.move 1).info.ftwDirNo = (count : Int) + 1 :=
      congrArg (· + 1) running.ftwDirNo
    rw [level]
    by_cases inside : (count : Int) + 1 ≤ depth
    · have visited : decide ((count : Int) + 1 ≤ depth) = true := decide_eq_true inside
      rw [if_neg (Int.not_lt.mpr inside)]
      by_cases zero : fn path .ftwD = 0
      · have descends : (count : Int) + 1 ≤ depth ∧ fn path .ftwD ≠ fnReturnContinue := by
          rw [zero]
          exact ⟨inside, by decide⟩
        have answer : ¬((walk.move 1).tell (some fn) path .ftwD).1 ≠ 0 := not_not.mpr zero
        -- The listing is walked one level further down than its nodes are gone through.
        have told := listed ((walk.tell (some fn) path .ftwD).2.move 1)
          ⟨running.retuFlag, running.rmEmptyFlag, running.retuVal, level⟩
        rw [follow_move] at told
        rw [meet_zero zero visited, if_pos descends, if_neg answer]
        exact nodeRun_of_entries told
      · have answer : ((walk.move 1).tell (some fn) path .ftwD).1 ≠ 0 := zero
        rw [if_pos answer]
        by_cases continues : fn path .ftwD = fnReturnContinue
        · have passes : ¬((count : Int) + 1 ≤ depth ∧ fn path .ftwD ≠ fnReturnContinue) :=
            fun both => both.2 continues
          have same : ((walk.move 1).tell (some fn) path .ftwD).1 = fnReturnContinue := continues
          rw [meet_continue continues visited, if_neg passes, same]
          rfl
        · rw [meet_stop (stops_iff.mpr ⟨visited, zero, continues⟩)]
          exact ⟨_, rfl, rfl⟩
    · have deep : ¬((count : Int) + 1 ≤ depth ∧ fn path .ftwD ≠ fnReturnContinue) :=
        fun both => inside both.1
      rw [meet_deep (decide_eq_false inside), if_neg deep, if_pos (Int.not_le.mp inside), move_back]
      rfl

/-- The loop behind an entry whose walk goes on. -/
theorem checkEntries_rest {name : Name} {node : Node} {entries : Entries} {path : Path}
    {dirNo : Int} {after : Walk} {nodes : List Seen}
    (short : ¬bufferSize ≤ (path.child name).length)
    (result : checkDir (some fn) depth false node (path.child name) walk =
      some (some node, after.info.retuVal, after))
    (goes : after.Running count)
    (behind : EntriesRun entries dirNo (checkEntries (some fn) depth false entries path dirNo after)
      (follow fn nodes after)) :
    EntriesRun (.cons name node entries) dirNo
      (checkEntries (some fn) depth false (.cons name node entries) path dirNo walk)
      (follow fn nodes after) := by
  have continues : ¬(after.info.retuVal ≠ fnReturnContinue ∧ after.info.retuVal ≠ 0) := by
    rintro ⟨notOne, notZero⟩
    exact goes.retuVal.elim notZero notOne
  rw [checkEntries, if_neg short, result]
  simp only [if_neg continues, goes.rmEmptyFlag, goes.setEmpty, cut_child,
    if_neg Bool.false_ne_true]
  cases rest : follow fn nodes after with
  | none =>
    rw [rest] at behind
    have undefined : checkEntries (some fn) depth false entries path dirNo after = none := behind
    rw [undefined]
    rfl
  | some ended =>
    obtain ⟨value, final⟩ := ended
    rw [rest] at behind
    cases value with
    | none =>
      have result : checkEntries (some fn) depth false entries path dirNo after =
        some (entries, none, dirNo, final) := behind
      rw [result]
      rfl
    | some value =>
      obtain ⟨last, result, calls⟩ := behind
      rw [result]
      exact ⟨last, rfl, calls⟩

/-- A listing, from its first entry and the others. -/
theorem checkEntries_cons {name : Name} {node : Node} {entries : Entries} (path : Path)
    (dirNo : Int) (running : walk.Running count)
    (first : NodeRun node (checkDir (some fn) depth false node (path.child name) walk)
      (follow fn (node.counted fn depth (path.child name) count) walk))
    (others : ∀ (walk : Walk) (count : Nat), walk.Running count →
      EntriesRun entries dirNo (checkEntries (some fn) depth false entries path dirNo walk)
        (follow fn (entries.counted fn depth path count) walk)) :
    EntriesRun (.cons name node entries) dirNo
      (checkEntries (some fn) depth false (.cons name node entries) path dirNo walk)
      (follow fn ((Entries.cons name node entries).counted fn depth path count) walk) := by
  rw [Entries.counted, follow_append, checkEntries]
  by_cases long : bufferSize ≤ (path.child name).length
  · rw [counted_long long]
    exact if_pos long
  · simp only [if_neg long]
    cases met : follow fn (node.counted fn depth (path.child name) count) walk with
    | none =>
      rw [met] at first
      have undefined : checkDir (some fn) depth false node (path.child name) walk = none := first
      rw [undefined]
      rfl
    | some ended =>
      obtain ⟨value, after⟩ := ended
      rw [met] at first
      cases value with
      | some value =>
        obtain ⟨last, result, calls⟩ := first
        have stops := follow_stop met
        refine ⟨last.stop value, ?_, calls⟩
        rw [result]
        exact if_pos stops
      | none =>
        have result : checkDir (some fn) depth false node (path.child name) walk =
          some (some node, after.info.retuVal, after) := first
        have goes := follow_running running met
        have looped := checkEntries_rest long result goes (others after _ goes)
        rw [checkEntries, if_neg long] at looped
        exact looped

mutual

/-- The walk of a node goes through the nodes it counts. -/
theorem checkDir_follow : ∀ (node : Node) (path : Path) (walk : Walk) (count : Nat),
    walk.Running count →
    NodeRun node (checkDir (some fn) depth false node path walk)
      (follow fn (node.counted fn depth path count) walk)
  | .file, path, _, _, running => checkDir_file path running
  | .dir entries, path, _, _, running =>
    checkDir_dir path running fun walk running =>
      checkEntries_follow entries path (entries.count + 2) walk _ running

/-- The same of a listing. -/
theorem checkEntries_follow : ∀ (entries : Entries) (path : Path) (dirNo : Int) (walk : Walk)
    (count : Nat), walk.Running count →
    EntriesRun entries dirNo (checkEntries (some fn) depth false entries path dirNo walk)
      (follow fn (entries.counted fn depth path count) walk)
  | .nil, _, _, _, _, _ => by
    rw [Entries.counted, checkEntries]
    rfl
  | .cons name node rest, path, dirNo, walk, count, running =>
    checkEntries_cons path dirNo running
      (checkDir_follow node (path.child name) walk count running)
      (checkEntries_follow rest path dirNo)

end

end Follow

/-! ### Places below a path -/

/-- A path is another one or goes on from it. -/
def Below (path place : Path) : Prop :=
  ∃ tail, place = path ++ tail ∧ (tail = [] ∨ ∃ rest, tail = '/' :: rest)

theorem below_self (path : Path) : Below path path :=
  ⟨[], (List.append_nil path).symm, Or.inl rfl⟩

theorem Below.parent {path place : Path} {name : Name} (below : Below (path.child name) place) :
    Below path place := by
  obtain ⟨tail, rfl, -⟩ := below
  exact ⟨'/' :: name.text ++ tail, List.append_assoc _ _ _, Or.inr ⟨_, rfl⟩⟩

/-- The entry that a path goes through can be read off it. -/
theorem takeWhile_entry (name : Name) {tail : List Char}
    (ends : tail = [] ∨ ∃ rest, tail = '/' :: rest) :
    (name.text ++ tail).takeWhile (fun char => decide (char ≠ '/')) = name.text := by
  rcases ends with rfl | ⟨rest, rfl⟩
  · rw [List.append_nil, List.takeWhile_eq_self_iff]
    intro char member
    exact decide_eq_true fun same => name.plain (same ▸ member)
  · exact Library.takeWhile_mark name.plain

theorem below_child_inj {path place : Path} {name other : Name}
    (below : Below (path.child name) place) (below' : Below (path.child other) place) :
    name = other := by
  obtain ⟨tail, rfl, ends⟩ := below
  obtain ⟨tail', same, ends'⟩ := below'
  unfold Path.child at same
  rw [List.append_assoc, List.append_assoc] at same
  have rest : name.text ++ tail = other.text ++ tail' :=
    (List.cons.inj (List.append_cancel_left same)).2
  refine Name.ext ?_
  rw [← takeWhile_entry name ends, rest, takeWhile_entry other ends']

/-- A place goes through an entry of a listing. -/
def Entries.Holds (path place : Path) : Entries → Prop
  | .nil => False
  | .cons name _ rest => Below (path.child name) place ∨ rest.Holds path place

theorem Entries.Holds.below {path place : Path} :
    ∀ {entries : Entries}, entries.Holds path place → Below path place
  | .nil, holds => holds.elim
  | .cons _ _ _, holds => holds.elim Below.parent Entries.Holds.below

/-- What goes through the entries behind a name does not go through the name. -/
theorem Entries.Holds.apart {path place : Path} {name : Name} :
    ∀ {entries : Entries}, entries.Behind name → entries.Holds path place →
      ¬Below (path.child name) place
  | .nil, _, holds => holds.elim
  | .cons _ _ _, behind, holds => by
    intro below
    rcases holds with here | later
    · have same := below_child_inj below here
      subst same
      exact List.lt_irrefl _ behind.1
    · exact Entries.Holds.apart behind.2 later below

section Compare

variable {fn : Path → Flag → Int} {depth : Int}

mutual

theorem Node.reached_below : ∀ (node : Node) (path : Path) (level : Nat),
    ∀ step ∈ node.reached fn depth path level, Below path step.path
  | .file, path, _, step, member => by
    rw [Node.reached, List.mem_singleton] at member
    rw [member]
    exact below_self path
  | .dir entries, path, level, step, member => by
    rw [Node.reached] at member
    rcases List.mem_cons.mp member with rfl | inner
    · exact below_self path
    · split at inner
      · exact (Entries.reached_below entries path (level + 1) step inner).below
      · cases inner

theorem Entries.reached_below : ∀ (entries : Entries) (path : Path) (level : Nat),
    ∀ step ∈ entries.reached fn depth path level, entries.Holds path step.path
  | .nil, _, _, step, member => by
    rw [Entries.reached] at member
    cases member
  | .cons name node rest, path, level, step, member => by
    rw [Entries.reached] at member
    rcases List.mem_append.mp member with here | later
    · exact Or.inl (Node.reached_below node (path.child name) level step here)
    · exact Or.inr (Entries.reached_below rest path level step later)

end

mutual

theorem Node.counted_below : ∀ (node : Node) (path : Path) (count : Nat),
    ∀ seen ∈ node.counted fn depth path count, Below path seen.path
  | .file, path, _, seen, member => by
    rw [Node.counted, List.mem_singleton] at member
    rw [member]
    exact below_self path
  | .dir entries, path, count, seen, member => by
    rw [Node.counted] at member
    rcases List.mem_cons.mp member with rfl | inner
    · exact below_self path
    · split at inner
      · exact (Entries.counted_below entries path (count + 1) seen inner).below
      · cases inner

theorem Entries.counted_below : ∀ (entries : Entries) (path : Path) (count : Nat),
    ∀ seen ∈ entries.counted fn depth path count, entries.Holds path seen.path
  | .nil, _, _, seen, member => by
    rw [Entries.counted] at member
    cases member
  | .cons name node rest, path, count, seen, member => by
    rw [Entries.counted] at member
    rcases List.mem_append.mp member with here | later
    · exact Or.inl (Node.counted_below node (path.child name) count seen here)
    · exact Or.inr (Entries.counted_below rest path _ seen later)

end

/-- What the walk should come to from a node on. -/
abbrev dueFrom (fn : Path → Flag → Int) (steps : List Step) : List Step :=
  upTo (fun step => step.toSeen.stops fn) steps

theorem levels_append {extra : Nat} {steps rest : List Step} :
    Levels fn depth extra (steps ++ rest) ↔ Levels fn depth extra steps ∧
      Levels fn depth (extra + passed fn (steps.map Step.toSeen)) rest := by
  induction steps generalizing extra with
  | nil => exact ⟨fun levels => ⟨trivial, levels⟩, fun levels => levels.2⟩
  | cons step steps inductionHypothesis =>
    rw [List.cons_append, Levels, Levels, inductionHypothesis, and_assoc, List.map_cons,
      passed_cons, Nat.add_assoc]

theorem any_map_toSeen (steps : List Step) :
    (steps.map Step.toSeen).any (Seen.stops fn) =
      steps.any fun step => step.toSeen.stops fn := by
  rw [List.any_map]
  rfl

theorem levels_head {extra : Nat} {step : Step} {steps : List Step}
    (levels : Levels fn depth extra (dueFrom fn (step :: steps))) (dir : step.flag = .ftwD)
    (visited : step.visited = true) : (step.level : Int) + extra ≤ depth := by
  rw [dueFrom, upTo] at levels
  split at levels
  · exact levels.1 dir visited
  · exact levels.1 dir visited

/-- The bound at a directory that is listed, and below it. -/
theorem levels_enter {extra level : Nat} {path : Path} {steps : List Step}
    (stops : Seen.stops fn ⟨path, .ftwD, true⟩ = false)
    (goes : ¬fn path .ftwD = fnReturnContinue) :
    Levels fn depth extra (dueFrom fn (⟨⟨path, .ftwD, true⟩, level⟩ :: steps)) ↔
      (level : Int) + extra ≤ depth ∧ Levels fn depth extra (dueFrom fn steps) := by
  have counts : ¬Seen.passes fn ⟨path, .ftwD, true⟩ = true := by
    rw [Seen.passes, Bool.and_eq_true]
    exact fun both => goes (of_decide_eq_true both.2)
  rw [dueFrom, upTo, stops, if_neg Bool.false_ne_true, Levels, if_neg counts]
  exact and_congr_left fun _ => ⟨fun bound => bound rfl rfl, fun bound _ _ => bound⟩

/-- The first list ends where the second does, when they are one up to there. -/
theorem any_stops {seen : List Seen} {steps : List Step}
    (same : upTo (Seen.stops fn) seen = (dueFrom fn steps).map Step.toSeen) :
    seen.any (Seen.stops fn) = steps.any fun step => step.toSeen.stops fn := by
  rw [← any_upTo, same, any_map_toSeen, any_upTo]

section Dir

variable {entries : Entries} {path : Path} {level : Nat}

/-- A directory that is too deep. -/
theorem Node.reached_deep (deep : ¬(level : Int) + 1 ≤ depth) :
    (Node.dir entries).reached fn depth path level = [⟨⟨path, .ftwD, false⟩, level + 1⟩] := by
  rw [Node.reached, if_neg fun both => deep both.1, decide_eq_false deep]

/-- A directory that is passed over. -/
theorem Node.reached_pass (inside : (level : Int) + 1 ≤ depth)
    (passes : fn path .ftwD = fnReturnContinue) :
    (Node.dir entries).reached fn depth path level = [⟨⟨path, .ftwD, true⟩, level + 1⟩] := by
  rw [Node.reached, if_neg fun both => both.2 passes, decide_eq_true inside]

/-- A directory that is listed. -/
theorem Node.reached_enter (inside : (level : Int) + 1 ≤ depth)
    (goes : ¬fn path .ftwD = fnReturnContinue) :
    (Node.dir entries).reached fn depth path level =
      ⟨⟨path, .ftwD, true⟩, level + 1⟩ :: entries.reached fn depth path (level + 1) := by
  rw [Node.reached, if_pos ⟨inside, goes⟩, decide_eq_true inside]

theorem Node.counted_deep (deep : ¬(level : Int) + 1 ≤ depth) :
    (Node.dir entries).counted fn depth path level = [⟨path, .ftwD, false⟩] := by
  rw [Node.counted, if_neg fun both => deep both.1, decide_eq_false deep]

theorem Node.counted_pass (inside : (level : Int) + 1 ≤ depth)
    (passes : fn path .ftwD = fnReturnContinue) :
    (Node.dir entries).counted fn depth path level = [⟨path, .ftwD, true⟩] := by
  rw [Node.counted, if_neg fun both => both.2 passes, decide_eq_true inside]

theorem Node.counted_enter (inside : (level : Int) + 1 ≤ depth)
    (goes : ¬fn path .ftwD = fnReturnContinue) :
    (Node.dir entries).counted fn depth path level =
      ⟨path, .ftwD, true⟩ :: entries.counted fn depth path (level + 1) := by
  rw [Node.counted, if_pos ⟨inside, goes⟩, decide_eq_true inside]

end Dir

mutual

/-- Where no directory is too near to the bound, the two lists are one. -/
theorem Node.counted_eq : ∀ (node : Node) (path : Path) (level extra : Nat),
    Levels fn depth extra (dueFrom fn (node.reached fn depth path level)) →
    upTo (Seen.stops fn) (node.counted fn depth path (level + extra)) =
      (dueFrom fn (node.reached fn depth path level)).map Step.toSeen
  | .file, path, level, extra, _ => by
    rw [map_upTo, Node.counted, Node.reached]
    rfl
  | .dir entries, path, level, extra, levels => by
    by_cases inside : (level : Int) + 1 ≤ depth
    · by_cases passes : fn path .ftwD = fnReturnContinue
      · rw [Node.reached_pass inside passes] at levels ⊢
        have bound := levels_head levels rfl rfl
        have within : ((level + extra : Nat) : Int) + 1 ≤ depth := by
          rw [Int.natCast_add] at bound ⊢
          omega
        rw [Node.counted_pass within passes, dueFrom, map_upTo]
        rfl
      · rw [Node.reached_enter inside passes] at levels ⊢
        have bound := levels_head levels rfl rfl
        have within : ((level + extra : Nat) : Int) + 1 ≤ depth := by
          rw [Int.natCast_add] at bound ⊢
          omega
        rw [Node.counted_enter within passes, dueFrom, map_upTo, List.map_cons, upTo, upTo]
        cases stops : Seen.stops fn ⟨path, .ftwD, true⟩ with
        | true => rfl
        | false =>
          have below := ((levels_enter stops passes).mp levels).2
          have same := Entries.counted_eq entries path (level + 1) extra below
          rw [Nat.add_right_comm, same, map_upTo]
    · have deep : ¬((level + extra : Nat) : Int) + 1 ≤ depth := by omega
      rw [Node.counted_deep deep, Node.reached_deep inside]
      rfl

theorem Entries.counted_eq : ∀ (entries : Entries) (path : Path) (level extra : Nat),
    Levels fn depth extra (dueFrom fn (entries.reached fn depth path level)) →
    upTo (Seen.stops fn) (entries.counted fn depth path (level + extra)) =
      (dueFrom fn (entries.reached fn depth path level)).map Step.toSeen
  | .nil, _, _, _, _ => by
    rw [Entries.counted, Entries.reached]
    rfl
  | .cons name node rest, path, level, extra, levels => by
    rw [Entries.reached, dueFrom, upTo_append] at levels
    obtain ⟨first, later⟩ := levels_append.mp levels
    have same := Node.counted_eq node (path.child name) level extra first
    have stops := any_stops same
    rw [Entries.counted, Entries.reached, dueFrom, upTo_append, upTo_append, List.map_append, same,
      stops]
    cases ends : (node.reached fn depth (path.child name) level).any
        fun step => step.toSeen.stops fn with
    | true => rfl
    | false =>
      rw [ends] at stops later
      rw [upTo_of_none stops] at same
      rw [same, if_neg Bool.false_ne_true, if_neg Bool.false_ne_true, Nat.add_assoc]
      exact congrArg _ (Entries.counted_eq rest path level _ later)

end

theorem called_mem {seen : List Seen} {call : Path × Flag} (member : call ∈ called seen) :
    ∃ node ∈ seen, node.path = call.1 := by
  obtain ⟨node, visited, rfl⟩ := List.mem_map.mp member
  exact ⟨node, (List.mem_filter.mp visited).1, rfl⟩

theorem called_cons (path : Path) (flag : Flag) (seen : List Seen) :
    called (⟨path, flag, true⟩ :: seen) = (path, flag) :: called seen := by
  rw [called, List.filter_cons_of_pos rfl]
  rfl

theorem levels_one {extra : Nat} {step : Step}
    (bound : step.flag = .ftwD → step.visited = true → (step.level : Int) + extra ≤ depth) :
    Levels fn depth extra (dueFrom fn [step]) := by
  rw [dueFrom, upTo]
  split
  · exact ⟨bound, trivial⟩
  · exact ⟨bound, trivial⟩

theorem called_due_ne_nil {path : Path} {flag : Flag} {level : Nat} {steps : List Step} :
    called ((dueFrom fn (⟨⟨path, flag, true⟩, level⟩ :: steps)).map Step.toSeen) ≠ [] := by
  rw [dueFrom, map_upTo, List.map_cons, upTo]
  split
  · rw [called_cons]
    exact List.cons_ne_nil _ _
  · rw [called_cons]
    exact List.cons_ne_nil _ _

/-- The calls of a listing, taken apart at its first entry. -/
theorem called_apart {path : Path} {name : Name} {rest : Entries} (behind : rest.Behind name)
    {first first' later later' : List Seen}
    (same : called (first ++ later) = called (first' ++ later'))
    (inside : ∀ seen ∈ first, Below (path.child name) seen.path)
    (inside' : ∀ seen ∈ first', Below (path.child name) seen.path)
    (outside : ∀ seen ∈ later, rest.Holds path seen.path)
    (outside' : ∀ seen ∈ later', rest.Holds path seen.path) :
    called first = called first' ∧ called later = called later' := by
  rw [called_append, called_append] at same
  refine @append_inj_of_apart _ (fun call => Below (path.child name) call.1) _ _ _ _ same
    ?_ ?_ ?_ ?_
  · intro call member
    obtain ⟨node, there, same⟩ := called_mem member
    exact same ▸ inside node there
  · intro call member
    obtain ⟨node, there, same⟩ := called_mem member
    exact same ▸ inside' node there
  · intro call member
    obtain ⟨node, there, same⟩ := called_mem member
    exact same ▸ (outside node there).apart behind
  · intro call member
    obtain ⟨node, there, same⟩ := called_mem member
    exact same ▸ (outside' node there).apart behind

mutual

/-- Where the calls are the ones due, no directory was too near to the bound. -/
theorem Node.levels_of_called : ∀ (node : Node) (path : Path) (level extra : Nat),
    node.Ascending →
    called (upTo (Seen.stops fn) (node.counted fn depth path (level + extra))) =
      called ((dueFrom fn (node.reached fn depth path level)).map Step.toSeen) →
    Levels fn depth extra (dueFrom fn (node.reached fn depth path level))
  | .file, path, level, extra, _, _ => by
    rw [Node.reached]
    exact levels_one fun dir => Flag.noConfusion dir
  | .dir entries, path, level, extra, ascending, same => by
    by_cases inside : (level : Int) + 1 ≤ depth
    · by_cases within : ((level + extra : Nat) : Int) + 1 ≤ depth
      · have bound : ((level + 1 : Nat) : Int) + extra ≤ depth := by
          rw [Int.natCast_add] at within ⊢
          omega
        by_cases passes : fn path .ftwD = fnReturnContinue
        · rw [Node.reached_pass inside passes]
          exact levels_one fun _ _ => bound
        · rw [Node.reached_enter inside passes] at same ⊢
          rw [Node.counted_enter within passes, dueFrom, map_upTo, List.map_cons, upTo, upTo]
            at same
          cases stops : Seen.stops fn ⟨path, .ftwD, true⟩ with
          | true =>
            rw [dueFrom, upTo, stops, if_pos rfl]
            exact ⟨fun _ _ => bound, trivial⟩
          | false =>
            rw [stops, if_neg Bool.false_ne_true, if_neg Bool.false_ne_true, called_cons,
              called_cons, Nat.add_right_comm, ← map_upTo] at same
            have below := Entries.levels_of_called entries path (level + 1) extra ascending
              (List.cons.inj same).2
            exact (levels_enter stops passes).mpr ⟨bound, below⟩
      · -- The directory is left out, and with it the first call that is due.
        rw [Node.counted_deep within] at same
        by_cases passes : fn path .ftwD = fnReturnContinue
        · rw [Node.reached_pass inside passes] at same
          exact absurd same.symm called_due_ne_nil
        · rw [Node.reached_enter inside passes] at same
          exact absurd same.symm called_due_ne_nil
    · rw [Node.reached_deep inside]
      exact levels_one fun _ visited => Bool.noConfusion visited

theorem Entries.levels_of_called : ∀ (entries : Entries) (path : Path) (level extra : Nat),
    entries.Ascending →
    called (upTo (Seen.stops fn) (entries.counted fn depth path (level + extra))) =
      called ((dueFrom fn (entries.reached fn depth path level)).map Step.toSeen) →
    Levels fn depth extra (dueFrom fn (entries.reached fn depth path level))
  | .nil, _, _, _, _, _ => by
    rw [Entries.reached]
    trivial
  | .cons name node rest, path, level, extra, ascending, same => by
    obtain ⟨nodeAscends, behind, restAscends⟩ := ascending
    rw [Entries.counted, Entries.reached, dueFrom, upTo_append, upTo_append, List.map_append]
      at same
    have inside : ∀ seen ∈ upTo (Seen.stops fn)
          (node.counted fn depth (path.child name) (level + extra)),
        Below (path.child name) seen.path :=
      fun seen member => node.counted_below _ _ seen (mem_of_mem_upTo member)
    have inside' : ∀ seen ∈ (dueFrom fn (node.reached fn depth (path.child name) level)).map
          Step.toSeen, Below (path.child name) seen.path := by
      intro seen member
      obtain ⟨step, there, rfl⟩ := List.mem_map.mp member
      exact node.reached_below _ _ step (mem_of_mem_upTo there)
    obtain ⟨firstSame, laterSame⟩ := called_apart behind same inside inside'
      (by
        intro seen member
        split at member
        · cases member
        · exact rest.counted_below path _ seen (mem_of_mem_upTo member))
      (by
        intro seen member
        obtain ⟨step, there, rfl⟩ := List.mem_map.mp member
        split at there
        · cases there
        · exact rest.reached_below path level step (mem_of_mem_upTo there))
    have first := Node.levels_of_called node (path.child name) level extra nodeAscends firstSame
    have listed := Node.counted_eq node (path.child name) level extra first
    have stops := any_stops listed
    rw [Entries.reached, dueFrom, upTo_append]
    refine levels_append.mpr ⟨first, ?_⟩
    cases ends : (node.reached fn depth (path.child name) level).any
        fun step => step.toSeen.stops fn with
    | true => trivial
    | false =>
      rw [ends] at stops laterSame
      rw [upTo_of_none stops] at listed
      rw [stops, listed, if_neg Bool.false_ne_true, if_neg Bool.false_ne_true, Nat.add_assoc]
        at laterSame
      exact Entries.levels_of_called rest path level _ restAscends laterSame

end

/-! ### When the walk visits what is due -/

/-- The walk tells the callback of just the nodes that are due, in their order, and returns what
the callback ends it with. -/
def VisitsDue (fn : Path → Flag → Int) (depth : Int) (errFn : Bool) (dir : Path) (node : Node) :
    Prop :=
  ∃ left value walk, ftwSort (some fn) depth false errFn dir node = some (left, value, walk) ∧
    walk.calls = called ((node.due fn depth dir).map Step.toSeen) ∧
    ∀ step ∈ node.due fn depth dir, step.toSeen.stops fn = true → value = fn step.path step.flag

/-- Every path that is due goes into the buffers, and no directory that is due is too near to the
bound for the directories that were passed over before it. -/
def Fits (fn : Path → Flag → Int) (depth : Int) (dir : Path) (node : Node) : Prop :=
  (∀ step ∈ node.due fn depth dir, step.path.length < bufferSize) ∧
    Levels fn depth 0 (node.due fn depth dir)

theorem start_running : Walk.start.Running 0 :=
  ⟨rfl, rfl, Or.inl rfl, rfl⟩

/-- A walk whose paths go into the buffers, by the nodes it counts. -/
theorem checkDir_short {node : Node} {dir : Path}
    (short : ∀ seen ∈ upTo (Seen.stops fn) (node.counted fn depth dir 0),
      seen.path.length < bufferSize) :
    ∃ left value walk,
      checkDir (some fn) depth false node dir Walk.start = some (left, value, walk) ∧
      walk.calls = called (upTo (Seen.stops fn) (node.counted fn depth dir 0)) ∧
      ∀ seen ∈ upTo (Seen.stops fn) (node.counted fn depth dir 0), seen.stops fn = true →
        value = fn seen.path seen.flag := by
  obtain ⟨after, ended, calls⟩ := @follow_short fn (node.counted fn depth dir 0) Walk.start short
  have run := @checkDir_follow fn depth node dir Walk.start 0 start_running
  rw [ended] at run
  cases found : (upTo (Seen.stops fn) (node.counted fn depth dir 0)).find? (Seen.stops fn) with
  | none =>
    rw [found] at run
    refine ⟨_, _, _, run, calls, fun seen member stops => ?_⟩
    rw [find_upTo member stops] at found
    cases found
  | some last =>
    rw [found] at run
    obtain ⟨walk, result, same⟩ := run
    refine ⟨_, _, _, result, same.trans calls, fun seen member stops => ?_⟩
    rw [find_upTo member stops] at found
    cases found
    rfl

theorem checkDir_long {node : Node} {dir : Path}
    (long : ∃ seen ∈ upTo (Seen.stops fn) (node.counted fn depth dir 0),
      bufferSize ≤ seen.path.length) :
    checkDir (some fn) depth false node dir Walk.start = none := by
  have run := @checkDir_follow fn depth node dir Walk.start 0 start_running
  rwa [follow_long long] at run

/-- With a bound of one level or more something is due. -/
theorem due_called (deep : 1 ≤ depth) (dir : Path) (node : Node) :
    called ((node.due fn depth dir).map Step.toSeen) ≠ [] := by
  have inside : ((0 : Nat) : Int) + 1 ≤ depth := deep
  unfold Node.due
  cases node with
  | file =>
    rw [Node.reached]
    exact called_due_ne_nil
  | dir entries =>
    by_cases passes : fn dir .ftwD = fnReturnContinue
    · rw [Node.reached_pass inside passes]
      exact called_due_ne_nil
    · rw [Node.reached_enter inside passes]
      exact called_due_ne_nil

theorem fits_of_visitsDue (deep : 1 ≤ depth) {errFn : Bool} {dir : Path} (tree : Tree)
    (visits : VisitsDue fn depth errFn dir tree.node) :
    errFn = true ∧ Fits fn depth dir tree.node := by
  obtain ⟨left, value, walk, ran, calls, -⟩ := visits
  cases errFn with
  | false =>
    rw [ftwSort, if_neg Bool.false_ne_true] at ran
    cases ran
    exact absurd calls.symm (due_called deep dir tree.node)
  | true =>
    rw [ftwSort, if_pos rfl] at ran
    have short : ∀ seen ∈ upTo (Seen.stops fn) (tree.node.counted fn depth dir 0),
        seen.path.length < bufferSize := by
      intro seen member
      by_contra long
      rw [checkDir_long ⟨seen, member, Nat.not_lt.mp long⟩] at ran
      cases ran
    obtain ⟨left', value', walk', ran', calls', -⟩ := checkDir_short short
    cases ran.symm.trans ran'
    have levels := Node.levels_of_called tree.node dir 0 0 tree.ascending (calls'.symm.trans calls)
    have same := Node.counted_eq tree.node dir 0 0 levels
    refine ⟨rfl, fun step member => ?_, levels⟩
    have there : step.toSeen ∈ upTo (Seen.stops fn) (tree.node.counted fn depth dir (0 + 0)) := by
      rw [same]
      exact List.mem_map_of_mem member
    exact short step.toSeen there

theorem visitsDue_of_fits {dir : Path} {node : Node} (fits : Fits fn depth dir node) :
    VisitsDue fn depth true dir node := by
  obtain ⟨short, levels⟩ := fits
  have same := Node.counted_eq node dir 0 0 levels
  rw [Nat.add_zero] at same
  have within : ∀ seen ∈ upTo (Seen.stops fn) (node.counted fn depth dir 0),
      seen.path.length < bufferSize := by
    intro seen member
    rw [same] at member
    obtain ⟨step, there, rfl⟩ := List.mem_map.mp member
    exact short step there
  obtain ⟨left, value, walk, ran, calls, stopped⟩ := checkDir_short within
  refine ⟨left, value, walk, ran, calls.trans (congrArg called same), ?_⟩
  intro step member stops
  refine stopped step.toSeen ?_ stops
  rw [same]
  exact List.mem_map_of_mem member

end Compare

/-- The walk visits what is due exactly when a function for errors is given, every path that is
due goes into the buffers, and for no directory that is due its level and the number of
directories passed over before it are together more than the bound. -/
theorem ftwSort_visits_iff (fn : Path → Flag → Int) (depth : Int) (deep : 1 ≤ depth)
    (errFn : Bool) (dir : Path) (tree : Tree) :
    VisitsDue fn depth errFn dir tree.node ↔ errFn = true ∧ Fits fn depth dir tree.node := by
  constructor
  · exact fits_of_visitsDue deep tree
  · rintro ⟨rfl, fits⟩
    exact visitsDue_of_fits fits

/-- A directory with two empty ones in it. -/
def twoDirs : Tree where
  node := .dir
    (.cons ⟨['a'], a_plain, a_proper⟩ (.dir .nil)
      (.cons ⟨['b'], b_plain, b_proper⟩ (.dir .nil) .nil))
  ascending := ⟨trivial, ⟨by decide, trivial⟩, trivial, trivial, trivial⟩

/-- The callback that passes over the first of them. -/
def passFirst (path : Path) (_ : Flag) : Int :=
  if path = ['/', 'd', '/', 'a'] then fnReturnContinue else 0

theorem twoDirs_visits_iff :
    (passFirst ['/', 'd', '/', 'a'] .ftwD = fnReturnContinue ∧
      Fits passFirst 3 ['/', 'd'] twoDirs.node) ∧
      VisitsDue passFirst 3 true ['/', 'd'] twoDirs.node := by
  have fits : Fits passFirst 3 ['/', 'd'] twoDirs.node := by
    refine ⟨?_, ?_⟩
    · decide
    · decide
  exact ⟨⟨by decide, fits⟩,
    (ftwSort_visits_iff passFirst 3 (by decide) true ['/', 'd'] twoDirs).mpr ⟨rfl, fits⟩⟩

/-- With a bound of two levels the second of them is left out, because the first one was passed
over. -/
theorem second_dir_left_out :
    (1 : Int) ≤ 2 ∧ ¬VisitsDue passFirst 2 true ['/', 'd'] twoDirs.node := by
  refine ⟨by decide, fun visits => ?_⟩
  have levels := (fits_of_visitsDue (by decide) twoDirs visits).2.2
  exact absurd levels (by decide)

end ExmOnvif.FileLib
