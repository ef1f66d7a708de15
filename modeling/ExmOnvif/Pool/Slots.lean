/-
This file is about the readers' numbers: which reader processes hold which slot of
the pool.

A slot is free when its user is not valid, and the producer makes a user invalid that
has too many signals pending, whether its process is gone or only slow. A process
never learns that its slot was given away.
-/

import ExmOnvif.Pool.Readers

namespace ExmOnvif.Pool

open Library

namespace ShPool

/-- A valid user with no more signals than allowed stays valid. -/
theorem semAddAll_stays {pool : ShPool} {semVals : Nat → Nat} {userno : Nat}
    (valid : (pool.users userno).valid = true) (small : pool.sems userno + 1 ≤ semvmx)
    (few : (semVals userno : Int) ≤ pool.limit) :
    ((pool.semAddAll semVals).users userno).valid = true := by
  simp only [semAddAll, semAddUsr, semAdd, valid, small, if_true, few, decide_true]
  split
  · rfl
  · exact valid

/-- A read leaves every user as valid as it was. -/
theorem getResource_valid {pool after : ShPool} {userno buflen : Nat}
    {result : Except Errno Packet} (taken : pool.getResource userno buflen = some (result, after))
    (other : Nat) : (after.users other).valid = (pool.users other).valid := by
  by_cases same : other = userno
  · subst same
    obtain ⟨reset, found, _, _, outcome⟩ := getResource_cases taken
    have kept : (reset.users other).valid = (pool.users other).valid := by
      rcases resetUsr_cases found with rfl | ⟨_, rfl⟩
      · rfl
      · simp only [Function.update_self]
    rcases outcome with ⟨_, _, _, users⟩ | ⟨_, _, _, users⟩
    · rw [users, Function.update_self]
      exact kept
    · rw [users]
      exact kept
  · rw [(getResource_others taken same).1]

end ShPool

/-! ### Reader processes -/

/-- A pool with the slot each attached process holds, and the processes that are past their
semaphore. -/
structure Site where
  pool : ShPool
  holds : Nat → Option Nat
  reading : Nat → Bool

/-- What the producer and the reader processes do. -/
inductive Act where
  | add (call : ShPool.Call)
  | req (process : Nat)
  | reqFree (process : Nat)
  | reActiveUsr (process : Nat)
  | semReq (process : Nat)
  | take (process buflen : Nat)

namespace Site

/-- One step. A process attaches before it does anything else, and attaches once. -/
def step (site : Site) : Act → Option Site
  | .add call =>
    some { site with pool := (site.pool.addResource call.buf call.flag call.semVals).2 }
  | .req process =>
    match site.holds process with
    | some _ => none
    | none =>
      match site.pool.req with
      | .ok (userno, pool) =>
        some
          { site with
            pool := pool
            holds := Function.update site.holds process (some userno) }
      | .error _ => some site
  | .reqFree process =>
    (site.holds process).map fun userno =>
      { site with
        pool := site.pool.reqFree userno
        holds := Function.update site.holds process none }
  | .reActiveUsr process =>
    (site.holds process).map fun userno =>
      { site with pool := (site.pool.reActiveUsr userno).2 }
  | .semReq process =>
    if site.reading process then none
    else do
      let userno ← site.holds process
      let pool ← site.pool.semReq userno
      some { site with pool := pool, reading := Function.update site.reading process true }
  | .take process buflen =>
    if site.reading process then do
      let userno ← site.holds process
      let (_, pool) ← site.pool.getResource userno buflen
      some { site with pool := pool, reading := Function.update site.reading process false }
    else none

/-- No two attached processes hold one slot. -/
def Exclusive (site : Site) : Prop :=
  ∀ first second userno, site.holds first = some userno → site.holds second = some userno →
    first = second

/-- The producer finds every attached reader with no more signals than allowed. -/
def Attentive (site : Site) : Act → Prop
  | .add call =>
    ¬site.pool.Refuses (ShPool.needBlock call.buf.length) →
      ∀ process userno, site.holds process = some userno →
        site.pool.sems userno + 1 ≤ semvmx ∧ (call.semVals userno : Int) ≤ site.pool.limit
  | _ => True

/-- The processes that hold a slot hold a valid one each. -/
structure Held (site : Site) : Prop where
  sound : site.pool.Sound
  room : site.pool.count < maxEle
  valid : ∀ process userno, site.holds process = some userno →
    (site.pool.users userno).valid = true
  exclusive : site.Exclusive

/-- Calls that detach nobody and leave every slot valid that is held. -/
theorem Held.of_valid {site : Site} (held : site.Held) {next : Site}
    (same : ShPool.Untouched site.pool next.pool) (holds : next.holds = site.holds)
    (valid : ∀ userno, (site.pool.users userno).valid = true →
      (next.pool.users userno).valid = true) : next.Held where
  sound := same.sound held.sound
  room := by rw [same.count]; exact held.room
  valid := by
    intro process userno holder
    rw [holds] at holder
    exact valid userno (held.valid process userno holder)
  exclusive := by
    unfold Exclusive
    rw [holds]
    exact held.exclusive

theorem Held.add {site : Site} (held : site.Held) {call : ShPool.Call}
    (attentive : site.Attentive (.add call)) :
    ({ site with
        pool := (site.pool.addResource call.buf call.flag call.semVals).2 } : Site).Held := by
  obtain ⟨sound, room⟩ :=
    ShPool.addResource_sound held.sound held.room call.buf call.flag call.semVals
  refine ⟨sound, room, fun process userno holder => ?_, held.exclusive⟩
  have valid := held.valid process userno holder
  rcases ShPool.addResource_cases held.sound held.room call.buf call.flag call.semVals with
    ⟨added, _, kept, _, _, _, result⟩ | ⟨freed, _, kept, _, _, _, _, result⟩
  · obtain ⟨small, few⟩ := attentive kept.accepted process userno holder
    rw [result]
    refine ShPool.semAddAll_stays (by rw [kept.users]; exact valid)
      (by rw [kept.sems]; exact small) ?_
    rw [kept.limit]
    exact few
  · rw [result]
    show (freed.users userno).valid = true
    rw [kept.users]
    exact valid

theorem Held.req {site : Site} (held : site.Held) {process userno : Nat} {pool : ShPool}
    (attached : site.pool.req = .ok (userno, pool)) :
    ({ site with
        pool := pool
        holds := Function.update site.holds process (some userno) } : Site).Held := by
  obtain ⟨free, rfl⟩ := ShPool.req_cases attached
  have same : ShPool.Untouched site.pool
      { site.pool with
        lastUsrNo := userno
        sems := Function.update site.pool.sems userno 0
        users := Function.update site.pool.users userno ⟨true, site.pool.tail⟩ } :=
    ShPool.Untouched.of_readers _ _ _ _
  -- The slot is not valid, so nobody holds it.
  have unheld : ∀ other, site.holds other ≠ some userno := by
    intro other holder
    rw [held.valid other userno holder] at free
    cases free
  refine ⟨same.sound held.sound, held.room, fun other slot holder => ?_,
    fun first second slot one two => ?_⟩
  · show (Function.update site.pool.users userno ⟨true, site.pool.tail⟩ slot).valid = true
    by_cases mine : slot = userno
    · rw [mine, Function.update_self]
    · rw [Function.update_of_ne mine]
      have holder : Function.update site.holds process (some userno) other = some slot := holder
      by_cases itself : other = process
      · rw [itself, Function.update_self] at holder
        exact absurd (Option.some.inj holder).symm mine
      · rw [Function.update_of_ne itself] at holder
        exact held.valid other slot holder
  · have one : Function.update site.holds process (some userno) first = some slot := one
    have two : Function.update site.holds process (some userno) second = some slot := two
    by_cases firstItself : first = process
    · by_cases secondItself : second = process
      · rw [firstItself, secondItself]
      · rw [firstItself, Function.update_self] at one
        rw [Function.update_of_ne secondItself, ← one] at two
        exact absurd two (unheld second)
    · rw [Function.update_of_ne firstItself] at one
      by_cases secondItself : second = process
      · rw [secondItself, Function.update_self] at two
        rw [← two] at one
        exact absurd one (unheld first)
      · rw [Function.update_of_ne secondItself] at two
        exact held.exclusive first second slot one two

theorem Held.reqFree {site : Site} (held : site.Held) {process userno : Nat}
    (holder : site.holds process = some userno) :
    ({ site with
        pool := site.pool.reqFree userno
        holds := Function.update site.holds process none } : Site).Held := by
  have same : ShPool.Untouched site.pool (site.pool.reqFree userno) :=
    ShPool.Untouched.of_readers _ _ _ _
  have still : ∀ other slot, Function.update site.holds process none other = some slot →
      other ≠ process ∧ site.holds other = some slot := by
    intro other slot holds
    by_cases itself : other = process
    · rw [itself, Function.update_self] at holds
      cases holds
    · rw [Function.update_of_ne itself] at holds
      exact ⟨itself, holds⟩
  refine ⟨same.sound held.sound, held.room, fun other slot holds => ?_,
    fun first second slot one two => ?_⟩
  · obtain ⟨another, holds⟩ := still other slot holds
    have apart : slot ≠ userno := by
      intro equal
      rw [equal] at holds
      exact another (held.exclusive other process userno holds holder)
    show (Function.update site.pool.users userno _ slot).valid = true
    rw [Function.update_of_ne apart]
    exact held.valid other slot holds
  · exact held.exclusive first second slot (still first slot one).2 (still second slot two).2

/-- Every attentive step leaves every attached process a slot of its own. -/
theorem Held.step {site next : Site} {act : Act} (held : site.Held)
    (taken : site.step act = some next) (attentive : site.Attentive act) : next.Held := by
  cases act with
  | add call =>
    cases taken
    exact held.add attentive
  | req process =>
    simp only [Site.step] at taken
    split at taken
    · cases taken
    · split at taken
      · rename_i attached
        cases taken
        exact held.req attached
      · cases taken
        exact held
  | reqFree process =>
    obtain ⟨userno, holder, rfl⟩ := Option.map_eq_some_iff.mp taken
    exact held.reqFree holder
  | reActiveUsr process =>
    obtain ⟨userno, _, rfl⟩ := Option.map_eq_some_iff.mp taken
    refine held.of_valid (ShPool.reActiveUsr_untouched _ _) rfl fun other valid => ?_
    show ((site.pool.reActiveUsr userno).2.users other).valid = true
    rw [(ShPool.reActiveUsr_of_valid userno valid).1]
    exact valid
  | semReq process =>
    simp only [Site.step] at taken
    split at taken
    · cases taken
    · obtain ⟨userno, _, rest⟩ := Option.bind_eq_some_iff.mp taken
      obtain ⟨pool, found, last⟩ := Option.bind_eq_some_iff.mp rest
      cases last
      obtain ⟨_, rfl⟩ := ShPool.semReq_cases found
      exact held.of_valid (ShPool.Untouched.of_readers _ _ _ _) rfl fun _ valid => valid
  | take process buflen =>
    simp only [Site.step] at taken
    split at taken
    · obtain ⟨userno, _, rest⟩ := Option.bind_eq_some_iff.mp taken
      obtain ⟨⟨result, pool⟩, found, last⟩ := Option.bind_eq_some_iff.mp rest
      cases last
      obtain ⟨_, _, untouched, _⟩ := ShPool.getResource_cases found
      refine held.of_valid untouched rfl fun other valid => ?_
      show (pool.users other).valid = true
      rw [ShPool.getResource_valid found other]
      exact valid
    · cases taken

/-- A run of the processes whose steps all meet a condition on the state before them. -/
abbrev RunIf (guard : Site → Act → Prop) : Site → List Act → Site → Prop :=
  Runs fun before act after => before.step act = some after ∧ guard before act

/-- A pool nobody is attached to. -/
def unattached (pool : ShPool) : Site := ⟨pool, fun _ => none, fun _ => false⟩

/-- As long as the producer takes no attached reader to be gone, no two of them hold one slot. -/
theorem slots_exclusive {pagesize : Nat} {bytes newmaxsem : Int} {users : Nat → Usr}
    {sems : Nat → Nat} {pool : ShPool} {acts : List Act} {site : Site}
    (created : ShPool.create pagesize bytes newmaxsem users sems = .ok pool)
    (run : RunIf Attentive (unattached pool) acts site) : site.Exclusive := by
  have kept : site.Held := by
    refine run.invariant ⟨ShPool.create_sound created, ?_, ?_, ?_⟩ ?_
    · show pool.count < maxEle
      rw [ShPool.create_empty created]
      exact Nat.succ_pos _
    · intro process userno holder
      cases holder
    · intro first second userno holder
      cases holder
    · rintro before act after ⟨taken, attentive⟩ held
      exact held.step taken attentive
  exact kept.exclusive

/-- A pool of one page with one process attached. -/
def oneHeld : Site :=
  ⟨Net.onePageRead.pool, Function.update (fun _ => none) 10 (some 1), fun _ => false⟩

theorem oneHeld_attentive : oneHeld.Attentive (.add ⟨[1, 2, 3], 7, fun _ => 1⟩) := by
  intro _ process userno holder
  have holder : Function.update (fun _ => none) 10 (some 1) process = some userno := holder
  by_cases itself : process = 10
  · rw [itself, Function.update_self] at holder
    cases holder
    exact ⟨by decide, by decide⟩
  · rw [Function.update_of_ne itself] at holder
    cases holder

/-- A frame is added between the attachments of two processes. -/
theorem slots_exclusive_two :
    ∃ site, RunIf Attentive (unattached Net.onePage.pool)
        [.req 10, .add ⟨[1, 2, 3], 7, fun _ => 1⟩, .req 20] site ∧
      site.holds 10 = some 1 ∧ site.holds 20 = some 2 ∧ site.Exclusive := by
  have evaluated : ((oneHeld.step (.add ⟨[1, 2, 3], 7, fun _ => 1⟩)).bind
      (step · (.req 20))).any (fun site =>
        decide (site.holds 10 = some 1 ∧ site.holds 20 = some 2)) = true := by decide +kernel
  obtain ⟨site, found, facts⟩ := (Option.any_eq_true _ _).mp evaluated
  obtain ⟨middle, second, third⟩ := Option.bind_eq_some_iff.mp found
  have run : RunIf Attentive (unattached Net.onePage.pool)
      [.req 10, .add ⟨[1, 2, 3], 7, fun _ => 1⟩, .req 20] site :=
    ((Runs.nil.snoc ⟨show step _ (.req 10) = some oneHeld from rfl, trivial⟩).snoc
      ⟨second, oneHeld_attentive⟩).snoc ⟨third, trivial⟩
  obtain ⟨first, last⟩ := of_decide_eq_true facts
  exact ⟨site, run, first, last, @slots_exclusive 4096 4096 (-1) _ _ _ _ _ rfl run⟩

/-- A limit of one pending signal, two frames, and eight more processes: the last of them gets the
slot the first one still holds. -/
theorem slot_held_twice :
    ∃ pool site, ShPool.create 4096 4096 1 (fun _ => ⟨false, 0⟩) (fun _ => 0) = .ok pool ∧
      Runs (fun before act after => before.step act = some after) (unattached pool)
        [.req 0, .add ⟨[1], 7, fun _ => 1⟩, .add ⟨[1], 7, fun _ => 2⟩, .req 1, .req 2, .req 3,
          .req 4, .req 5, .req 6, .req 7, .req 8] site ∧
      site.holds 0 = some 1 ∧ site.holds 8 = some 1 := by
  obtain ⟨site, run, facts⟩ := @Runs.of_any Site Act
    (unattached { Net.onePage.pool with newmaxsem := 1 }) step
    [.req 0, .add ⟨[1], 7, fun _ => 1⟩, .add ⟨[1], 7, fun _ => 2⟩, .req 1, .req 2, .req 3,
      .req 4, .req 5, .req 6, .req 7, .req 8]
    (fun site => decide (site.holds 0 = some 1 ∧ site.holds 8 = some 1)) (by decide +kernel)
  exact ⟨_, site, rfl, run, of_decide_eq_true facts⟩

end Site

end ExmOnvif.Pool
