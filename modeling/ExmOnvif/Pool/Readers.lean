/-
This file puts the producer and the readers of a frame pool together: the steps of
the processes that share it, in any order.

A read has two steps, since a reader waits on its semaphore before it takes the
lock. A state also keeps the history of the frames: those that were added, those
each reader was given, and how many there were when it attached.
-/

import ExmOnvif.Library.Runs
import ExmOnvif.Pool.Invariant

namespace ExmOnvif.Pool

open Library

namespace ShPool

/-! ### Calls that leave the frames alone -/

/-- Neither elements nor blocks were touched. -/
structure Untouched (before after : ShPool) : Prop where
  head : after.head = before.head
  tail : after.tail = before.tail
  count : after.count = before.count
  num : after.num = before.num
  tblocks : after.tblocks = before.tblocks
  fblocks : after.fblocks = before.fblocks
  fbstart : after.fbstart = before.fbstart
  eles : after.eles = before.eles
  eledata : after.eledata = before.eledata

/-- What is kept for the readers is not looked at. -/
theorem Untouched.of_readers (pool : ShPool) (users : Nat → Usr) (sems : Nat → Nat)
    (lastUsrNo : Int) :
    Untouched pool { pool with users := users, sems := sems, lastUsrNo := lastUsrNo } :=
  ⟨rfl, rfl, rfl, rfl, rfl, rfl, rfl, rfl, rfl⟩

theorem Untouched.refl (pool : ShPool) : Untouched pool pool :=
  Untouched.of_readers pool pool.users pool.sems pool.lastUsrNo

theorem Untouched.live {before after : ShPool} (same : Untouched before after) :
    after.live = before.live := by
  rw [ShPool.live, same.eles, same.head, same.count, ShPool.live]

theorem Untouched.sound {before after : ShPool} (same : Untouched before after)
    (sound : before.Sound) : after.Sound where
  head := by rw [same.head]; exact sound.head
  count := by rw [same.count]; exact sound.count
  tail := by rw [same.tail, same.head, same.count]; exact sound.tail
  start := by rw [same.fbstart, same.tblocks]; exact sound.start
  room := by rw [same.live, same.fblocks, same.tblocks]; exact sound.room
  laid := by rw [same.live, same.tblocks, same.fbstart, same.fblocks]; exact sound.laid
  large := by rw [same.live]; exact sound.large
  nonempty := by rw [same.live]; exact sound.nonempty

/-- Signalling moves no reader. -/
theorem semAddAll_curele (pool : ShPool) (semVals : Nat → Nat) (userno : Nat) :
    ((pool.semAddAll semVals).users userno).curele = (pool.users userno).curele := by
  simp only [semAddAll, semAddUsr]
  split
  · split
    · split <;> rfl
    · rfl
  · rfl

/-- A valid user is signalled once, or is taken to be gone. -/
theorem semAddAll_valid {pool : ShPool} {semVals : Nat → Nat} {userno : Nat}
    (below : userno < maxUsers) (valid : (pool.users userno).valid = true) :
    (pool.semAddAll semVals).sems userno = pool.sems userno + 1 ∨
      ((pool.semAddAll semVals).sems userno = pool.sems userno ∧
        ((pool.semAddAll semVals).users userno).valid = false) := by
  by_cases small : pool.sems userno + 1 ≤ semvmx
  · refine Or.inl ?_
    simp only [semAddAll, semAddUsr, semAdd, below, valid, small, if_true]
  · refine Or.inr ?_
    simp only [semAddAll, semAddUsr, semAdd, below, valid, small, if_true, if_false, and_self]

/-- No user is signalled twice. -/
theorem semAddAll_le (pool : ShPool) (semVals : Nat → Nat) (userno : Nat) :
    (pool.semAddAll semVals).sems userno ≤ pool.sems userno + 1 := by
  simp only [semAddAll, semAddUsr, semAdd]
  split_ifs
  all_goals simp only [Nat.le_refl, Nat.le_succ]

/-- A user that is not valid is not signalled. -/
theorem semAddAll_invalid {pool : ShPool} {semVals : Nat → Nat} {userno : Nat}
    (invalid : (pool.users userno).valid = false) :
    (pool.semAddAll semVals).sems userno = pool.sems userno ∧
      (pool.semAddAll semVals).users userno = pool.users userno := by
  simp only [semAddAll, semAddUsr, invalid, Bool.false_eq_true, if_false]
  split_ifs
  · exact ⟨rfl, rfl⟩
  · exact ⟨rfl, rfl⟩

theorem mvUsrPlace_untouched (pool : ShPool) (userno : Nat) (place : Int) :
    Untouched pool (pool.mvUsrPlace userno place).2 :=
  Untouched.of_readers _ _ _ _

theorem reActiveUsr_untouched (pool : ShPool) (userno : Nat) :
    Untouched pool (pool.reActiveUsr userno).2 := by
  unfold reActiveUsr
  split
  · exact Untouched.refl pool
  · exact Untouched.of_readers _ _ _ _

/-- Activating one reader again changes no other. -/
theorem reActiveUsr_others (pool : ShPool) {userno other : Nat} (apart : other ≠ userno) :
    (pool.reActiveUsr userno).2.users other = pool.users other ∧
      (pool.reActiveUsr userno).2.sems = pool.sems := by
  unfold reActiveUsr
  split
  · exact ⟨rfl, rfl⟩
  · exact ⟨Function.update_of_ne apart _ _, rfl⟩

/-- Activating a reader again moves nobody. -/
theorem reActiveUsr_curele (pool : ShPool) (userno : Nat) :
    ((pool.reActiveUsr userno).2.users userno).curele = (pool.users userno).curele ∧
      (pool.reActiveUsr userno).2.sems = pool.sems := by
  unfold reActiveUsr
  split
  · exact ⟨rfl, rfl⟩
  · simp only [Function.update_self, and_self]

/-- Activating a reader again changes no valid one. -/
theorem reActiveUsr_of_valid {pool : ShPool} {other : Nat} (userno : Nat)
    (valid : (pool.users other).valid = true) :
    (pool.reActiveUsr userno).2.users other = pool.users other ∧
      (pool.reActiveUsr userno).2.sems = pool.sems := by
  by_cases same : other = userno
  · subst same
    rw [reActiveUsr, if_pos valid]
    exact ⟨rfl, rfl⟩
  · exact reActiveUsr_others pool same

/-- All `SemReq` can do: wait, or take one. -/
theorem semReq_cases {pool after : ShPool} {userno : Nat}
    (taken : pool.semReq userno = some after) :
    pool.sems userno ≠ 0 ∧
      after = { pool with sems := Function.update pool.sems userno (pool.sems userno - 1) } := by
  unfold semReq at taken
  split at taken
  · cases taken
  · rename_i some
    cases taken
    exact ⟨some, rfl⟩

/-- A reader gets a slot nobody else has. -/
theorem getAFreeUsrNo_free {pool : ShPool} {userno : Nat}
    (found : pool.getAFreeUsrNo = some userno) :
    (pool.users userno).valid = false := by
  have free := List.find?_some found
  simpa only [Bool.not_eq_true'] using free

/-- All `MShmPoolReq` can do. -/
theorem req_cases {pool after : ShPool} {userno : Nat} (attached : pool.req = .ok (userno, after)) :
    (pool.users userno).valid = false ∧
      after =
        { pool with
          lastUsrNo := userno
          sems := Function.update pool.sems userno 0
          users := Function.update pool.users userno ⟨true, pool.tail⟩ } := by
  unfold req at attached
  split at attached
  · cases attached
  · rename_i found
    cases attached
    exact ⟨getAFreeUsrNo_free found, rfl⟩

/-- All the recovery can do. -/
theorem resetUsr_cases {pool reset : ShPool} {userno : Nat}
    (found : pool.resetUsr userno = some reset) :
    reset = pool ∨ (pool.tail ≠ 0 ∧
      reset =
        { pool with
          users := Function.update pool.users userno
            { pool.users userno with curele := pool.tail - 1 }
          sems := Function.update pool.sems userno 0 }) := by
  unfold resetUsr at found
  split at found
  · split at found
    · cases found
    · rename_i later
      cases found
      exact Or.inr ⟨later, rfl⟩
  · cases found
    exact Or.inl rfl

theorem resetUsr_untouched {pool reset : ShPool} {userno : Nat}
    (found : pool.resetUsr userno = some reset) : Untouched pool reset := by
  rcases resetUsr_cases found with rfl | ⟨_, rfl⟩
  · exact Untouched.refl reset
  · exact Untouched.of_readers _ _ _ _

/-- A reader's recovery concerns that reader alone. -/
theorem resetUsr_others {pool reset : ShPool} {userno other : Nat}
    (found : pool.resetUsr userno = some reset) (apart : other ≠ userno) :
    reset.users other = pool.users other ∧ reset.sems other = pool.sems other := by
  rcases resetUsr_cases found with rfl | ⟨_, rfl⟩
  · exact ⟨rfl, rfl⟩
  · exact ⟨Function.update_of_ne apart _ _, Function.update_of_ne apart _ _⟩

/-- The recovery signals nobody. -/
theorem resetUsr_sems {pool reset : ShPool} {userno : Nat}
    (found : pool.resetUsr userno = some reset) (other : Nat) :
    reset.sems other ≤ pool.sems other := by
  rcases resetUsr_cases found with rfl | ⟨_, rfl⟩
  · exact Nat.le_refl _
  · show Function.update pool.sems userno 0 other ≤ pool.sems other
    rw [Function.update_apply]
    split
    · exact Nat.zero_le _
    · exact Nat.le_refl _

/-- What a read leaves of the users and the semaphores. -/
theorem getResource_cases {pool after : ShPool} {userno buflen : Nat}
    {result : Except Errno Packet}
    (taken : pool.getResource userno buflen = some (result, after)) :
    ∃ reset, pool.resetUsr userno = some reset ∧ Untouched pool after ∧ after.sems = reset.sems ∧
      ((∃ packet, result = .ok packet ∧
          reset.saveEle2Buf buflen (reset.users userno).curele = .ok packet ∧
          after.users = Function.update reset.users userno
            { reset.users userno with curele := newerEle (reset.users userno).curele }) ∨
        (∃ errno, result = .error errno ∧
          reset.saveEle2Buf buflen (reset.users userno).curele = .error errno ∧
          after.users = reset.users)) := by
  obtain ⟨reset, found, rest⟩ := Option.bind_eq_some_iff.mp taken
  have same := resetUsr_untouched found
  refine ⟨reset, found, ?_⟩
  simp only at rest
  split at rest
  · rename_i packet saved
    cases rest
    exact ⟨⟨same.head, same.tail, same.count, same.num, same.tblocks, same.fblocks, same.fbstart,
      same.eles, same.eledata⟩, rfl, Or.inl ⟨packet, rfl, saved, rfl⟩⟩
  · rename_i errno saved
    cases rest
    exact ⟨same, rfl, Or.inr ⟨errno, rfl, saved, rfl⟩⟩

/-- A read concerns its reader alone. -/
theorem getResource_others {pool after : ShPool} {userno buflen other : Nat}
    {result : Except Errno Packet}
    (taken : pool.getResource userno buflen = some (result, after)) (apart : other ≠ userno) :
    after.users other = pool.users other ∧ after.sems other = pool.sems other := by
  obtain ⟨reset, found, _, sems, outcome⟩ := getResource_cases taken
  obtain ⟨resetUsers, resetSems⟩ := resetUsr_others found apart
  refine ⟨?_, by rw [sems, resetSems]⟩
  rcases outcome with ⟨_, _, _, users⟩ | ⟨_, _, _, users⟩
  · rw [users, Function.update_of_ne apart, resetUsers]
  · rw [users, resetUsers]

end ShPool

/-! ### The processes together -/

/-- A pool with the reads that are past their semaphore and wait for the lock, and the history:
the frames added, their number when each reader attached, and the frames it was given. -/
structure Net where
  pool : ShPool
  granted : Nat → Nat
  sent : List ShPool.Packet
  since : Nat → Nat
  got : Nat → List ShPool.Packet

/-- What the processes do. A reader is known by its number. -/
inductive Label where
  | add (call : ShPool.Call)
  | semReq (userno : Fin maxUsers)
  | take (userno : Fin maxUsers) (buflen : Nat)
  | mvUsrPlace (userno : Fin maxUsers) (place : Int)
  | reActiveUsr (userno : Fin maxUsers)
  | req

namespace Net

/-- A pool nobody has read from yet. -/
def fresh (pool : ShPool) : Net := ⟨pool, fun _ => 0, [], fun _ => 0, fun _ => []⟩

/-- One step; `none` where the reader has to wait, is not reading, or leaves the array of
elements. -/
def step (net : Net) : Label → Option Net
  | .add call =>
    match net.pool.addResource call.buf call.flag call.semVals with
    | (.ok _, pool) =>
      some
        { net with
          pool := pool
          sent := net.sent ++ [⟨call.buf, call.buf.length, pool.num, call.flag⟩] }
    | (.error _, pool) => some { net with pool := pool }
  | .semReq userno =>
    (net.pool.semReq userno).map fun pool =>
      { net with
        pool := pool
        granted := Function.update net.granted userno (net.granted userno + 1) }
  | .take userno buflen =>
    if net.granted userno = 0 then none
    else
      (net.pool.getResource userno buflen).map fun (result, pool) =>
        { net with
          pool := pool
          granted := Function.update net.granted userno (net.granted userno - 1)
          got :=
            match result with
            | .ok packet => Function.update net.got userno (net.got userno ++ [packet])
            | .error _ => net.got }
  | .mvUsrPlace userno place => some { net with pool := (net.pool.mvUsrPlace userno place).2 }
  | .reActiveUsr userno => some { net with pool := (net.pool.reActiveUsr userno).2 }
  | .req =>
    match net.pool.req with
    | .ok (userno, pool) =>
      some
        { net with
          pool := pool
          since := Function.update net.since userno net.sent.length
          got := Function.update net.got userno [] }
    | .error _ => some net

/-! ### What a step can do -/

theorem step_semReq {net next : Net} {userno : Fin maxUsers}
    (taken : net.step (.semReq userno) = some next) :
    net.pool.sems userno ≠ 0 ∧
      next =
        { net with
          pool :=
            { net.pool with
              sems := Function.update net.pool.sems userno (net.pool.sems userno - 1) }
          granted := Function.update net.granted userno (net.granted userno + 1) } := by
  obtain ⟨pool, found, rfl⟩ := Option.map_eq_some_iff.mp taken
  obtain ⟨some, rfl⟩ := ShPool.semReq_cases found
  exact ⟨some, rfl⟩

/-- A read that gets past its semaphore is still to come. -/
theorem semReq_signals {net : Net} {userno : Fin maxUsers} (some : net.pool.sems userno ≠ 0)
    (other : Fin maxUsers) :
    Function.update net.pool.sems userno (net.pool.sems userno - 1) other +
        Function.update net.granted userno (net.granted userno + 1) other =
      net.pool.sems other + net.granted other := by
  by_cases same : (other : Nat) = userno
  · rw [same, Function.update_self, Function.update_self]
    omega
  · rw [Function.update_of_ne same, Function.update_of_ne same]

theorem step_take {net next : Net} {userno : Fin maxUsers} {buflen : Nat}
    (taken : net.step (.take userno buflen) = some next) :
    net.granted userno ≠ 0 ∧ ∃ result after,
      net.pool.getResource userno buflen = some (result, after) ∧
      next =
        { net with
          pool := after
          granted := Function.update net.granted userno (net.granted userno - 1)
          got :=
            match result with
            | .ok packet => Function.update net.got userno (net.got userno ++ [packet])
            | .error _ => net.got } := by
  simp only [step] at taken
  split at taken
  · cases taken
  · rename_i some
    obtain ⟨⟨result, after⟩, found, rfl⟩ := Option.map_eq_some_iff.mp taken
    exact ⟨some, result, after, found, rfl⟩

theorem step_req {net next : Net} (taken : net.step .req = some next) :
    next = net ∨ ∃ userno pool, net.pool.req = .ok (userno, pool) ∧
      (net.pool.users userno).valid = false ∧
      next =
        { net with
          pool :=
            { net.pool with
              lastUsrNo := userno
              sems := Function.update net.pool.sems userno 0
              users := Function.update net.pool.users userno ⟨true, net.pool.tail⟩ }
          since := Function.update net.since userno net.sent.length
          got := Function.update net.got userno [] } := by
  simp only [step] at taken
  split at taken
  · rename_i userno pool attached
    cases taken
    obtain ⟨free, rfl⟩ := ShPool.req_cases attached
    exact Or.inr ⟨userno, _, attached, free, rfl⟩
  · cases taken
    exact Or.inl rfl

/-- The call is another reader's. -/
def Foreign (net : Net) (userno : Fin maxUsers) : Label → Prop
  | .add _ => False
  | .semReq other => other ≠ userno
  | .take other _ => other ≠ userno
  | .mvUsrPlace other _ => other ≠ userno
  | .reActiveUsr other => other ≠ userno
  | .req => ∀ attached ∈ net.pool.req.toOption, (userno : Nat) ≠ attached.1

/-- The frames and everything kept for one reader stay as they are. -/
structure Aside (net next : Net) (userno : Nat) : Prop where
  untouched : ShPool.Untouched net.pool next.pool
  users : next.pool.users userno = net.pool.users userno
  sems : next.pool.sems userno = net.pool.sems userno
  granted : next.granted userno = net.granted userno
  sent : next.sent = net.sent
  since : next.since userno = net.since userno
  got : next.got userno = net.got userno

theorem Aside.refl (net : Net) (userno : Nat) : Aside net net userno :=
  ⟨ShPool.Untouched.refl _, rfl, rfl, rfl, rfl, rfl, rfl⟩

/-- A reader is not concerned by the calls of the others. -/
theorem step_foreign {net next : Net} {userno : Fin maxUsers} {label : Label}
    (taken : net.step label = some next) (foreign : net.Foreign userno label) :
    Aside net next userno := by
  cases label with
  | add call => exact foreign.elim
  | semReq other =>
    have apart : (userno : Nat) ≠ other := Fin.val_ne_of_ne (Ne.symm foreign)
    obtain ⟨_, rfl⟩ := step_semReq taken
    exact ⟨ShPool.Untouched.of_readers _ _ _ _, rfl, Function.update_of_ne apart _ _,
      Function.update_of_ne apart _ _, rfl, rfl, rfl⟩
  | take other buflen =>
    have apart : (userno : Nat) ≠ other := Fin.val_ne_of_ne (Ne.symm foreign)
    obtain ⟨_, result, after, found, rfl⟩ := step_take taken
    obtain ⟨_, _, untouched, _⟩ := ShPool.getResource_cases found
    obtain ⟨users, sems⟩ := ShPool.getResource_others found apart
    refine ⟨untouched, users, sems, Function.update_of_ne apart _ _, rfl, rfl, ?_⟩
    cases result with
    | error errno => rfl
    | ok packet => exact Function.update_of_ne apart _ _
  | mvUsrPlace other place =>
    have apart : (userno : Nat) ≠ other := Fin.val_ne_of_ne (Ne.symm foreign)
    cases taken
    exact ⟨ShPool.mvUsrPlace_untouched _ _ _, Function.update_of_ne apart _ _, rfl, rfl, rfl, rfl,
      rfl⟩
  | reActiveUsr other =>
    have apart : (userno : Nat) ≠ other := Fin.val_ne_of_ne (Ne.symm foreign)
    cases taken
    obtain ⟨users, sems⟩ := ShPool.reActiveUsr_others net.pool apart
    exact ⟨ShPool.reActiveUsr_untouched _ _, users, by rw [sems], rfl, rfl, rfl, rfl⟩
  | req =>
    rcases step_req taken with rfl | ⟨other, pool, attached, _, rfl⟩
    · exact Aside.refl _ _
    · have apart : (userno : Nat) ≠ other := foreign (other, pool) (by rw [attached]; rfl)
      exact ⟨ShPool.Untouched.of_readers _ _ _ _, Function.update_of_ne apart _ _,
        Function.update_of_ne apart _ _, rfl, rfl, Function.update_of_ne apart _ _,
        Function.update_of_ne apart _ _⟩

/-- A slot handed out to this reader. -/
theorem step_req_own {net next : Net} {userno : Fin maxUsers} (taken : net.step .req = some next)
    (own : ¬net.Foreign userno .req) :
    ∃ pool, net.pool.req = .ok ((userno : Nat), pool) ∧
      (net.pool.users userno).valid = false ∧
      next =
        { net with
          pool :=
            { net.pool with
              lastUsrNo := (userno : Nat)
              sems := Function.update net.pool.sems userno 0
              users := Function.update net.pool.users userno ⟨true, net.pool.tail⟩ }
          since := Function.update net.since userno net.sent.length
          got := Function.update net.got userno [] } := by
  simp only [Foreign, not_forall, not_not] at own
  obtain ⟨⟨other, pool⟩, member, same⟩ := own
  cases attached : net.pool.req with
  | error errno =>
    rw [attached] at member
    cases member
  | ok given =>
    rw [attached] at member
    cases member
    cases same
    obtain ⟨free, rfl⟩ := ShPool.req_cases attached
    simp only [step, attached] at taken
    cases taken
    exact ⟨_, rfl, free, rfl⟩

/-- A frame added, with one more signal for every valid reader, or everything released. -/
theorem step_add {net next : Net} {call : ShPool.Call} (sound : net.pool.Sound)
    (below : net.pool.count < maxEle) (taken : net.step (.add call) = some next) :
    (∃ added released, ShPool.Added net.pool added call.buf call.flag released ∧ added.Sound ∧
        added.count < maxEle ∧
        (∀ unread ≤ net.pool.count,
          net.pool.Spares unread (ShPool.needBlock call.buf.length) → unread < added.count) ∧
        next =
          { net with
            pool := added.semAddAll call.semVals
            sent := net.sent ++
              [⟨call.buf, call.buf.length, net.pool.num + 1, call.flag⟩] }) ∨
      (∃ freed released, ShPool.Released net.pool freed released ∧ freed.Sound ∧
        freed.count = 0 ∧ net.pool.Refuses (ShPool.needBlock call.buf.length) ∧
        (∀ unread ≤ net.pool.count,
          net.pool.Spares unread (ShPool.needBlock call.buf.length) → unread = 0) ∧
        next = { net with pool := freed }) := by
  simp only [step] at taken
  rcases ShPool.addResource_cases sound below call.buf call.flag call.semVals with
    ⟨added, released, kept, addedSound, under, spares, result⟩ |
    ⟨freed, released, kept, freedSound, empty, refuses, spares, result⟩
  · rw [result] at taken
    cases taken
    refine Or.inl ⟨added, released, kept, addedSound, under, spares, ?_⟩
    rw [← kept.num]
    rfl
  · rw [result] at taken
    cases taken
    exact Or.inr ⟨freed, released, kept, freedSound, empty, refuses, spares, rfl⟩

/-- The pool is sound, with room in its ring of elements. -/
def Sound (net : Net) : Prop := net.pool.Sound ∧ net.pool.count < maxEle

theorem Sound.of_untouched {net : Net} (sound : net.Sound) {next : Net}
    (same : ShPool.Untouched net.pool next.pool) : next.Sound :=
  ⟨same.sound sound.1, by rw [same.count]; exact sound.2⟩

/-- Every call of every process keeps the pool sound. -/
theorem step_sound {net next : Net} {label : Label} (sound : net.Sound)
    (taken : net.step label = some next) : next.Sound := by
  cases label with
  | add call =>
    rcases step_add sound.1 sound.2 taken with
      ⟨added, released, _, addedSound, under, _, rfl⟩ |
      ⟨freed, released, _, freedSound, empty, _, _, rfl⟩
    · exact ⟨ShPool.semAddAll_sound addedSound _, under⟩
    · exact ⟨freedSound, empty.trans_lt (Nat.succ_pos _)⟩
  | semReq userno =>
    obtain ⟨_, rfl⟩ := step_semReq taken
    exact sound.of_untouched (ShPool.Untouched.of_readers _ _ _ _)
  | take userno buflen =>
    obtain ⟨_, result, after, found, rfl⟩ := step_take taken
    obtain ⟨reset, _, same, _⟩ := ShPool.getResource_cases found
    exact sound.of_untouched same
  | mvUsrPlace userno place =>
    cases taken
    exact sound.of_untouched (ShPool.mvUsrPlace_untouched _ _ _)
  | reActiveUsr userno =>
    cases taken
    exact sound.of_untouched (ShPool.reActiveUsr_untouched _ _)
  | req =>
    rcases step_req taken with rfl | ⟨userno, _, _, _, rfl⟩
    · exact sound
    · exact sound.of_untouched (ShPool.Untouched.of_readers _ _ _ _)

/-! ### Runs -/

/-- The pool on its first creation: the shared memory is blank and the semaphores are new. -/
def created (pagesize : Nat) (bytes newmaxsem : Int) : Except Errno Net :=
  (ShPool.create pagesize bytes newmaxsem (fun _ => ⟨false, 0⟩) fun _ => 0).map fresh

/-- A run of the processes. -/
abbrev Run : Net → List Label → Net → Prop :=
  Runs fun before label after => before.step label = some after

/-- A run whose steps all meet a condition on the state before them. -/
abbrev RunIf (guard : Net → Label → Prop) : Net → List Label → Net → Prop :=
  Runs fun before label after => before.step label = some after ∧ guard before label

theorem created_sound {pagesize : Nat} {bytes newmaxsem : Int} {net : Net}
    (start : created pagesize bytes newmaxsem = .ok net) : net.Sound := by
  unfold created at start
  cases made : ShPool.create pagesize bytes newmaxsem (fun _ => ⟨false, 0⟩) fun _ => 0 with
  | error errno =>
    rw [made] at start
    cases start
  | ok pool =>
    rw [made] at start
    cases start
    exact ⟨ShPool.create_sound made, (ShPool.create_empty made).trans_lt (Nat.succ_pos _)⟩

/-- On its first creation a pool has no reader. -/
theorem created_blank {pagesize : Nat} {bytes newmaxsem : Int} {net : Net}
    (start : created pagesize bytes newmaxsem = .ok net) (userno : Nat) :
    (net.pool.users userno).valid = false ∧ (net.pool.users userno).curele = 0 ∧
      net.pool.sems userno = 0 ∧ net.granted userno = 0 := by
  unfold created ShPool.create at start
  split at start
  · cases start
  · cases start
    refine ⟨rfl, rfl, ?_, rfl⟩
    show Function.update (fun _ => 0) 0 0 userno = 0
    rw [Function.update_apply, ite_self]

theorem run_sound {start net : Net} {labels : List Label} (sound : start.Sound)
    (run : Run start labels net) : net.Sound :=
  run.invariant sound fun _ _ _ taken kept => step_sound kept taken

/-- A pool of one page on its first creation. -/
def onePage : Net :=
  fresh
    { maxsem := 100
      num := 0
      tblocks := 8
      fblocks := 8
      fbstart := 0
      count := 0
      head := 0
      tail := 0
      lastUsrNo := -1
      sendBytes := 0
      eles := fun _ => Ele.zero
      users := fun _ => ⟨false, 0⟩
      sems := Function.update (fun _ => 0) 0 0
      eledata := fun _ => 0
      newmaxsem := -1
      oldmaxsem := 100 }

theorem created_onePage : created 4096 4096 (-1) = .ok onePage := rfl

/-- The number of the first reader of a new pool. -/
def firstReader : Fin maxUsers := ⟨1, by decide⟩

/-- A pool of one page with its first reader. -/
def onePageRead : Net :=
  { onePage with
    pool :=
      { onePage.pool with
        lastUsrNo := 1
        sems := Function.update onePage.pool.sems 1 0
        users := Function.update onePage.pool.users 1 ⟨true, 0⟩ }
    since := Function.update onePage.since 1 0
    got := Function.update onePage.got 1 [] }

theorem step_onePage : onePage.step .req = some onePageRead := rfl

end Net

end ExmOnvif.Pool
