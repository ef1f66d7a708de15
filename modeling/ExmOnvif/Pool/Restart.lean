/-
This file is about a producer that creates its pool again while readers are attached
to it. The ring starts again at its first element; the readers keep their places,
and their semaphores keep what they had, but for the first one: the loop that is to
clear them all clears that one each time.
-/

import ExmOnvif.Pool.Backlog

namespace ExmOnvif.Pool

open Library

namespace Net

/-- `MShmPoolCreate` again, on a pool with its readers. The frames are counted from here on. -/
def recreate (net : Net) (pagesize : Nat) (bytes newmaxsem : Int) : Except Errno Net :=
  (ShPool.create pagesize bytes newmaxsem net.pool.users net.pool.sems).map fun pool =>
    { net with pool := pool, sent := [] }

/-- The reads a reader was granted. -/
def grants (userno : Fin maxUsers) (labels : List Label) : Nat :=
  labels.countP fun label =>
    match label with
    | .semReq other => other = userno
    | _ => false

/-- Every reader's place is on the ring, no read under way makes it leave it, and no reader was
granted more reads than frames were added. -/
structure Recovers (labels : List Label) (net : Net) : Prop where
  place : ∀ userno : Fin maxUsers, (net.pool.users userno).curele < maxEle
  inside : ∀ userno : Fin maxUsers, net.granted userno ≠ 0 →
    (net.pool.resetUsr userno).isSome = true
  fed : ∀ userno : Fin maxUsers, grants userno labels ≤ net.sent.length

/-- No read is under way, and no reader but the first one has signals left. -/
def Quiet (net : Net) : Prop :=
  ∀ userno : Fin maxUsers, net.granted userno = 0 ∧
    ((userno : Nat) ≠ 0 → net.pool.sems userno = 0)

instance (net : Net) : Decidable net.Quiet :=
  inferInstanceAs (Decidable (∀ _ : Fin maxUsers, _ ∧ (_ → _)))

/-- A frame too large for the pool is not tried with the tail at the first element while a reader
has a read to come. -/
def Sized (net : Net) : Label → Prop
  | .add call =>
    net.pool.Refuses (ShPool.needBlock call.buf.length) → net.pool.tail ≠ 0 ∨
      ∀ userno : Fin maxUsers, net.pool.sems userno + net.granted userno = 0
  | _ => True

instance (net : Net) : ∀ label, Decidable (net.Sized label)
  | .add _ => inferInstanceAs (Decidable (_ ∧ _ → _ ∨ ∀ _ : Fin maxUsers, _))
  | .semReq _ => isTrue trivial
  | .take _ _ => isTrue trivial
  | .mvUsrPlace _ _ => isTrue trivial
  | .reActiveUsr _ => isTrue trivial
  | .req => isTrue trivial

/-- The invariant of the pool after its second creation. -/
structure Restarted (labels : List Label) (net : Net) : Prop where
  sound : net.Sound
  place : ∀ userno : Fin maxUsers, (net.pool.users userno).curele < maxEle
  idle : net.pool.head = 0 → net.pool.tail = 0 →
    ∀ userno : Fin maxUsers, net.pool.sems userno + net.granted userno = 0
  fed : ∀ userno : Fin maxUsers,
    grants userno labels + net.pool.sems userno ≤ net.sent.length

theorem Restarted.recovers {labels : List Label} {net : Net} (restarted : Restarted labels net) :
    Recovers labels net := by
  refine ⟨restarted.place, fun userno granted => ?_, fun userno => ?_⟩
  · have pending : ¬(net.pool.head = 0 ∧ net.pool.tail = 0) := by
      rintro ⟨head, tail⟩
      have none := restarted.idle head tail userno
      omega
    unfold ShPool.resetUsr
    split
    · rename_i behind
      rw [if_neg fun tail => pending ⟨behind.1, tail⟩]
      rfl
    · rfl
  · have fed := restarted.fed userno
    omega

theorem recreate_restarted {net again : Net} {pagesize : Nat} {bytes newmaxsem : Int}
    (place : ∀ userno : Fin maxUsers, (net.pool.users userno).curele < maxEle) (quiet : net.Quiet)
    (created : net.recreate pagesize bytes newmaxsem = .ok again) : Restarted [] again := by
  unfold recreate at created
  cases made : ShPool.create pagesize bytes newmaxsem net.pool.users net.pool.sems with
  | error errno =>
    rw [made] at created
    cases created
  | ok pool =>
    rw [made] at created
    cases created
    have sound := ShPool.create_sound made
    have empty := ShPool.create_empty made
    unfold ShPool.create at made
    split at made
    · cases made
    · cases made
      have cleared : ∀ userno : Fin maxUsers,
          Function.update net.pool.sems 0 0 userno = 0 := by
        intro userno
        by_cases first : (userno : Nat) = 0
        · rw [first, Function.update_self]
        · rw [Function.update_of_ne first]
          exact (quiet userno).2 first
      refine ⟨⟨sound, Nat.succ_pos _⟩, place, fun _ _ userno => ?_, fun userno => ?_⟩
      · show Function.update net.pool.sems 0 0 userno + net.granted userno = 0
        rw [cleared, (quiet userno).1]
      · show 0 + Function.update net.pool.sems 0 0 userno ≤ 0
        rw [cleared]

theorem grants_concat (userno : Fin maxUsers) (labels : List Label) (label : Label) :
    grants userno (labels ++ [label]) = grants userno labels + grants userno [label] :=
  List.countP_append

theorem grants_semReq (userno other : Fin maxUsers) :
    grants userno [.semReq other] = if other = userno then 1 else 0 := by
  simp only [grants, List.countP_cons, List.countP_nil, Nat.zero_add, decide_eq_true_eq]

/-- Steps that add no frame and signal no reader. -/
theorem Restarted.of_untouched {labels : List Label} {net next : Net} {label : Label}
    (restarted : Restarted labels net) (taken : net.step label = some next)
    (same : ShPool.Untouched net.pool next.pool) (sent : next.sent = net.sent)
    (pending : ∀ userno : Fin maxUsers, next.pool.sems userno + next.granted userno ≤
      net.pool.sems userno + net.granted userno)
    (signals : ∀ userno : Fin maxUsers, grants userno [label] + next.pool.sems userno ≤
      net.pool.sems userno) : Restarted (labels ++ [label]) next := by
  refine ⟨step_sound restarted.sound taken,
    step_below restarted.sound restarted.place taken, fun head tail userno => ?_, fun userno => ?_⟩
  · rw [same.head] at head
    rw [same.tail] at tail
    exact Nat.le_zero.mp ((pending userno).trans (restarted.idle head tail userno).le)
  · have fed := restarted.fed userno
    have less := signals userno
    rw [grants_concat, sent]
    omega

theorem Restarted.add {labels : List Label} {net next : Net} {call : ShPool.Call}
    (restarted : Restarted labels net) (taken : net.step (.add call) = some next)
    (sized : net.Sized (.add call)) : Restarted (labels ++ [.add call]) next := by
  have sound := step_sound restarted.sound taken
  have place := step_below restarted.sound restarted.place taken
  rcases step_add restarted.sound.1 restarted.sound.2 taken with
    ⟨added, released, kept, _, _, _, rfl⟩ | ⟨freed, released, kept, _, empty, refuses, _, rfl⟩
  · refine ⟨sound, place, fun head tail => ?_, fun userno => ?_⟩
    · -- With a frame in the pool head and tail are apart.
      have some : added.count ≠ 0 := by
        have count := kept.count
        have few := kept.few
        omega
      have meet := (ShPool.tail_eq_head_iff sound.1 some).mp (tail.trans head.symm)
      exact absurd meet (Nat.ne_of_lt sound.2)
    · have fed := restarted.fed userno
      have more := ShPool.semAddAll_le added call.semVals userno
      rw [kept.sems] at more
      rw [grants_concat]
      show _ + 0 + (added.semAddAll call.semVals).sems userno ≤ (net.sent ++ _).length
      rw [List.length_append, List.length_singleton]
      omega
  · refine ⟨sound, place, fun _ tail userno => ?_, fun userno => ?_⟩
    · show freed.sems userno + net.granted userno = 0
      rw [kept.sems]
      have tail : net.pool.tail = 0 := kept.tail.symm.trans tail
      exact (sized refuses).resolve_left (not_not.mpr tail) userno
    · rw [grants_concat]
      show _ + 0 + freed.sems userno ≤ net.sent.length
      rw [kept.sems]
      exact restarted.fed userno

/-- Every step keeps the invariant. -/
theorem Restarted.step {labels : List Label} {net next : Net} {label : Label}
    (restarted : Restarted labels net) (taken : net.step label = some next)
    (sized : net.Sized label) : Restarted (labels ++ [label]) next := by
  cases label with
  | add call => exact restarted.add taken sized
  | semReq other =>
    obtain ⟨some, same⟩ := step_semReq taken
    subst same
    refine restarted.of_untouched taken (ShPool.Untouched.of_readers _ _ _ _) rfl
      (fun userno => (semReq_signals some userno).le) fun userno => ?_
    rw [grants_semReq]
    show _ + Function.update net.pool.sems other (net.pool.sems other - 1) userno ≤ _
    by_cases same : other = userno
    · subst same
      rw [if_pos rfl, Function.update_self]
      omega
    · have apart : (userno : Nat) ≠ other := fun equal => same (Fin.ext equal.symm)
      rw [if_neg same, Function.update_of_ne apart, Nat.zero_add]
  | take other buflen =>
    obtain ⟨_, result, after, found, same⟩ := step_take taken
    subst same
    obtain ⟨reset, recovered, untouched, sems, _⟩ := ShPool.getResource_cases found
    have less : ∀ userno : Fin maxUsers, after.sems userno ≤ net.pool.sems userno := by
      intro userno
      rw [sems]
      exact ShPool.resetUsr_sems recovered userno
    refine restarted.of_untouched taken untouched rfl (fun userno => ?_) fun userno => ?_
    · refine Nat.add_le_add (less userno) ?_
      show Function.update net.granted other (net.granted other - 1) userno ≤ net.granted userno
      by_cases same : (userno : Nat) = other
      · rw [same, Function.update_self]
        exact Nat.sub_le _ _
      · rw [Function.update_of_ne same]
    · exact (Nat.zero_add _).trans_le (less userno)
  | mvUsrPlace other place =>
    cases taken
    exact restarted.of_untouched rfl (ShPool.mvUsrPlace_untouched _ _ _) rfl
      (fun _ => Nat.le_refl _) fun _ => (Nat.zero_add _).le
  | reActiveUsr other =>
    cases taken
    have sems := (ShPool.reActiveUsr_curele net.pool other).2
    refine restarted.of_untouched rfl (ShPool.reActiveUsr_untouched _ _) rfl
      (fun userno => ?_) fun userno => ?_
    · rw [sems]
    · rw [sems]
      exact (Nat.zero_add _).le
  | req =>
    rcases step_req taken with same | ⟨other, pool, attached, _, same⟩
    · subst same
      exact restarted.of_untouched taken (ShPool.Untouched.refl _) rfl (fun _ => Nat.le_refl _)
        fun _ => (Nat.zero_add _).le
    · subst same
      have less : ∀ userno : Fin maxUsers,
          Function.update net.pool.sems other 0 userno ≤ net.pool.sems userno := by
        intro userno
        by_cases same : (userno : Nat) = other
        · rw [same, Function.update_self]
          exact Nat.zero_le _
        · rw [Function.update_of_ne same]
      exact restarted.of_untouched taken (ShPool.Untouched.of_readers _ _ _ _) rfl
        (fun userno => Nat.add_le_add_right (less userno) _)
        fun userno => (Nat.zero_add _).trans_le (less userno)

end Net

end ExmOnvif.Pool
