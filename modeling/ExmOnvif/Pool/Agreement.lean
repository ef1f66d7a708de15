/-
This file compares a reader's semaphore with what it has left to read.

They agree as long as nothing but adding and reading happens: a moved place, a read
into a buffer that is too small, and a reader that comes back after frames it was not
signalled for each part the two for good.
-/

import ExmOnvif.Pool.Backlog

namespace ExmOnvif.Pool

open Library

namespace Net

/-- The semaphore of every valid reader counts, with its read under way, the elements from its
place up to the tail, so that a read waits exactly when nothing is left to read. -/
def Agreement (net : Net) : Prop :=
  ∀ userno : Fin maxUsers, (net.pool.users userno).valid = true →
    net.pool.sems userno + net.granted userno = net.pool.unread userno ∧
      (net.granted userno = 0 →
        ((net.pool.semReq userno).isSome ↔ net.pool.unread userno ≠ 0))

/-- What has to hold of the calls. The ring of elements does not lap a valid reader. A reader reads
one element at a time, into a buffer that is large enough. Its place is not moved, or by a whole
turn. A reader that was taken to be gone comes back only with all the signals for what it has left
to read. A slot is not handed out while a read of it is under way. -/
def Counted (net : Net) : Label → Prop
  | .add _ =>
    ∀ userno : Fin maxUsers, (net.pool.users userno).valid = true →
      net.pool.unread userno + 1 < maxEle
  | .semReq userno => net.granted userno = 0
  | .take userno buflen =>
    (net.pool.users userno).valid = true →
      ∀ cur ∈ net.pool.readEle userno, (net.pool.eles cur).datalen ≤ buflen
  | .mvUsrPlace userno place =>
    (net.pool.users userno).valid = true → place = 0 ∨
      (maxEle ≤ place.natAbs ∧ (net.pool.users userno).curele =
        if place < 0 then net.pool.head else net.pool.tail)
  | .reActiveUsr userno =>
    (net.pool.users userno).valid = true ∨
      net.pool.sems userno + net.granted userno = net.pool.unread userno
  | .req => ∀ attached ∈ net.pool.req.toOption, net.granted attached.1 = 0

instance (net : Net) : ∀ label, Decidable (net.Counted label)
  | .add _ => inferInstanceAs (Decidable (∀ _ : Fin maxUsers, _))
  | .semReq _ => inferInstanceAs (Decidable (_ = _))
  | .take _ _ => inferInstanceAs (Decidable (_ → ∀ cur ∈ _, _))
  | .mvUsrPlace _ _ => inferInstanceAs (Decidable (_ → _ ∨ (_ ∧ _)))
  | .reActiveUsr _ => inferInstanceAs (Decidable (_ ∨ _))
  | .req => inferInstanceAs (Decidable (∀ attached ∈ net.pool.req.toOption, _))

/-- The reader's semaphore and its read under way count what it has left to read. -/
structure Agrees (net : Net) (userno : Nat) : Prop where
  below : (net.pool.users userno).curele < maxEle
  single : net.granted userno ≤ 1
  signals : (net.pool.users userno).valid = true →
    net.pool.sems userno + net.granted userno = net.pool.unread userno

theorem Agrees.of_same {net next : Net} {userno : Nat} (agrees : net.Agrees userno)
    (usr : next.pool.users userno = net.pool.users userno) (tail : next.pool.tail = net.pool.tail)
    (sems : next.pool.sems userno = net.pool.sems userno)
    (granted : next.granted userno = net.granted userno) : next.Agrees userno := by
  have unread : next.pool.unread userno = net.pool.unread userno := by
    unfold ShPool.unread
    rw [usr, tail]
  refine ⟨by rw [usr]; exact agrees.below, by rw [granted]; exact agrees.single, fun valid => ?_⟩
  rw [usr] at valid
  rw [sems, granted, unread]
  exact agrees.signals valid

theorem agreement_of_agrees {net : Net} (agrees : ∀ userno : Fin maxUsers, net.Agrees userno) :
    net.Agreement := by
  intro userno valid
  have signals := (agrees userno).signals valid
  refine ⟨signals, fun idle => ?_⟩
  rw [idle, Nat.add_zero] at signals
  rw [← signals, ShPool.semReq]
  split
  · rename_i none
    exact iff_of_false Bool.false_ne_true (not_not.mpr none)
  · rename_i some
    exact iff_of_true rfl some

theorem Agrees.add {net next : Net} {userno : Fin maxUsers} {call : ShPool.Call}
    (agrees : net.Agrees userno) (sound : net.Sound) (taken : net.step (.add call) = some next)
    (short : (net.pool.users userno).valid = true → net.pool.unread userno + 1 < maxEle) :
    next.Agrees userno := by
  rcases step_add sound.1 sound.2 taken with
    ⟨added, released, kept, _, _, _, rfl⟩ | ⟨freed, released, kept, _, _, _, _, rfl⟩
  · have usr : added.users userno = net.pool.users userno := by rw [kept.users]
    refine ⟨?_, agrees.single, fun valid => ?_⟩
    · rw [ShPool.semAddAll_curele, usr]
      exact agrees.below
    · have was : (added.users userno).valid = true := by
        by_contra invalid
        rw [(@ShPool.semAddAll_invalid added call.semVals userno
          (Bool.not_eq_true _ ▸ invalid)).2] at valid
        exact invalid valid
      rcases @ShPool.semAddAll_valid added call.semVals userno userno.isLt was with
        more | ⟨_, gone⟩
      · rw [usr] at was
        have signals := agrees.signals was
        rw [unread_added sound.1 kept.tail kept.users agrees.below (short was), ← signals]
        show (added.semAddAll call.semVals).sems userno + net.granted userno = _
        rw [more, kept.sems]
        omega
      · rw [gone] at valid
        cases valid
  · exact agrees.of_same (by rw [kept.users]) kept.tail (by rw [kept.sems]) rfl

/-- After the recovery, the reader's read under way is for the newest element. -/
theorem Agrees.reset {net : Net} {userno : Fin maxUsers} {reset : ShPool}
    (agrees : net.Agrees userno) (sound : net.Sound) (granted : net.granted userno ≠ 0)
    (recovered : net.pool.resetUsr userno = some reset) :
    (reset.users userno).curele < maxEle ∧
      (reset.users userno).valid = (net.pool.users userno).valid ∧
      ((net.pool.users userno).valid = true → reset.sems userno + 1 = reset.unread userno) := by
  have single := agrees.single
  have tail := sound.1.tail_lt
  rcases ShPool.resetUsr_cases recovered with rfl | ⟨later, rfl⟩
  · refine ⟨agrees.below, rfl, fun valid => ?_⟩
    have signals := agrees.signals valid
    omega
  · refine ⟨?_, ?_, fun valid => ?_⟩
    · simp only [Function.update_self]
      omega
    · simp only [Function.update_self]
    · simp only [ShPool.unread, Function.update_self]
      unfold maxEle at *
      omega

theorem Agrees.take {net next : Net} {userno : Fin maxUsers} {buflen : Nat}
    (agrees : net.Agrees userno) (sound : net.Sound)
    (taken : net.step (.take userno buflen) = some next)
    (fits : (net.pool.users userno).valid = true →
      ∀ cur ∈ net.pool.readEle userno, (net.pool.eles cur).datalen ≤ buflen) :
    next.Agrees userno := by
  obtain ⟨granted, result, after, found, rfl⟩ := step_take taken
  obtain ⟨reset, recovered, untouched, sems, outcome⟩ := ShPool.getResource_cases found
  obtain ⟨below, valid, signals⟩ := agrees.reset sound granted recovered
  have single := agrees.single
  have last : Function.update net.granted userno (net.granted userno - 1) userno = 0 := by
    rw [Function.update_self]
    omega
  have same := ShPool.resetUsr_untouched recovered
  have few : Function.update net.granted userno (net.granted userno - 1) userno ≤ 1 := by
    rw [last]
    exact Nat.zero_le _
  rcases outcome with ⟨packet, rfl, _, users⟩ | ⟨errno, rfl, refused, users⟩
  · have usr : after.users userno =
        ⟨(net.pool.users userno).valid, ((reset.users userno).curele + 1) % maxEle⟩ := by
      rw [users, Function.update_self, ← ShPool.newerEle_eq below, ← valid]
    refine ⟨?_, few, fun lively => ?_⟩
    · show (after.users userno).curele < maxEle
      rw [usr]
      exact Nat.mod_lt _ (Nat.succ_pos _)
    · have lively : (after.users userno).valid = true := lively
      rw [usr] at lively
      have signals := signals lively
      show after.sems userno + Function.update net.granted userno _ userno = after.unread userno
      have tail : reset.tail < maxEle := same.tail.trans_lt sound.1.tail_lt
      rw [sems, last, unread_taken below tail (congrArg Usr.curele usr)
        (untouched.tail.trans same.tail.symm) (by omega), ← signals]
      rfl
  · refine ⟨?_, few, fun lively => ?_⟩
    · show (after.users userno).curele < maxEle
      rw [users]
      exact below
    · -- A valid reader's buffer is large enough.
      have lively : (after.users userno).valid = true := lively
      rw [users, valid] at lively
      have enough := fits lively _ (by rw [ShPool.readEle, recovered]; rfl)
      simp only [ShPool.saveEle2Buf] at refused
      rw [same.eles, if_neg (Nat.not_lt.mpr enough)] at refused
      cases refused

/-- A place that is not moved, or moved by a whole turn. -/
theorem mvUsrPlace_same {pool : ShPool} {userno : Nat} {place : Int} (sound : pool.Sound)
    (below : (pool.users userno).curele < maxEle)
    (turn : place = 0 ∨ (maxEle ≤ place.natAbs ∧
      (pool.users userno).curele = if place < 0 then pool.head else pool.tail)) :
    (pool.mvUsrPlace userno place).2.users userno = pool.users userno := by
  have whole : ∀ cur, ShPool.stepsTo cur cur = maxEle := by
    intro cur
    unfold ShPool.stepsTo maxEle
    omega
  simp only [ShPool.mvUsrPlace, Function.update_self]
  rcases turn with rfl | ⟨long, at_⟩
  · rfl
  · by_cases back : place < 0
    · rw [if_pos back] at at_ ⊢
      rw [ShPool.movePlace_older sound.head below, at_, whole, Nat.min_eq_right long,
        Nat.add_sub_cancel, Nat.mod_eq_of_lt sound.head, ← at_]
    · rw [if_neg back] at at_ ⊢
      rw [ShPool.movePlace_newer sound.tail_lt below, at_, whole, Nat.min_eq_right long,
        Nat.add_mod_right, Nat.mod_eq_of_lt sound.tail_lt, ← at_]

/-- Every counted call keeps the agreement of every reader. -/
theorem step_agrees {net next : Net} {label : Label} (sound : net.Sound)
    (agrees : ∀ userno : Fin maxUsers, net.Agrees userno) (taken : net.step label = some next)
    (counted : net.Counted label) (userno : Fin maxUsers) : next.Agrees userno := by
  have below := (agrees userno).below
  have single := (agrees userno).single
  by_cases foreign : net.Foreign userno label
  · have aside := step_foreign taken foreign
    exact (agrees userno).of_same aside.users aside.untouched.tail aside.sems aside.granted
  · cases label with
    | add call => exact (agrees userno).add sound taken (counted userno)
    | semReq other =>
      obtain rfl := not_not.mp foreign
      obtain ⟨some, rfl⟩ := step_semReq taken
      have idle : net.granted other = 0 := counted
      refine ⟨below, ?_, fun valid => ?_⟩
      · show Function.update net.granted other (net.granted other + 1) other ≤ 1
        rw [Function.update_self, idle]
      · exact (semReq_signals some other).trans ((agrees other).signals valid)
    | take other buflen =>
      obtain rfl := not_not.mp foreign
      exact (agrees other).take sound taken counted
    | mvUsrPlace other place =>
      obtain rfl := not_not.mp foreign
      cases taken
      refine ⟨mvUsrPlace_below place sound.1 below, single, fun valid => ?_⟩
      have valid : (net.pool.users other).valid = true := by
        simpa only [ShPool.mvUsrPlace, Function.update_self] using valid
      have usr := mvUsrPlace_same sound.1 below (counted valid)
      have unread : (net.pool.mvUsrPlace other place).2.unread other = net.pool.unread other := by
        unfold ShPool.unread
        rw [usr]
        rfl
      exact ((agrees other).signals valid).trans unread.symm
    | reActiveUsr other =>
      obtain rfl := not_not.mp foreign
      cases taken
      obtain ⟨curele, sems⟩ := ShPool.reActiveUsr_curele net.pool other
      have tail := (ShPool.reActiveUsr_untouched net.pool other).tail
      have unread : (net.pool.reActiveUsr other).2.unread other = net.pool.unread other := by
        unfold ShPool.unread
        rw [curele, tail]
      refine ⟨by rw [curele]; exact below, single, fun _ => ?_⟩
      show (net.pool.reActiveUsr other).2.sems other + net.granted other =
        (net.pool.reActiveUsr other).2.unread other
      rw [unread, sems]
      exact counted.elim (agrees other).signals id
    | req =>
      obtain ⟨pool, attached, _, rfl⟩ := step_req_own taken foreign
      have idle : net.granted userno = 0 := counted (_, pool) (by rw [attached]; rfl)
      refine ⟨?_, single, fun _ => ?_⟩
      · show (Function.update net.pool.users userno ⟨true, net.pool.tail⟩ userno).curele < maxEle
        rw [Function.update_self]
        exact sound.1.tail_lt
      · simp only [ShPool.unread, Function.update_self]
        rw [idle, Nat.add_sub_cancel_left, Nat.mod_self]

/-- The pool is sound and every reader's semaphore agrees with its place. -/
structure InStep (net : Net) : Prop where
  sound : net.Sound
  agrees : ∀ userno : Fin maxUsers, net.Agrees userno

/-- As long as every call is counted, every valid reader's semaphore counts what it has left to
read. -/
theorem semaphores_agree {pagesize : Nat} {bytes newmaxsem : Int} {start net : Net}
    {labels : List Label} (begun : created pagesize bytes newmaxsem = .ok start)
    (run : RunIf Counted start labels net) : net.Agreement := by
  have kept : net.InStep := by
    refine run.invariant ⟨created_sound begun, fun userno => ?_⟩ ?_
    · obtain ⟨invalid, curele, _, granted⟩ := created_blank begun userno
      refine ⟨by rw [curele]; exact Nat.succ_pos _, by rw [granted]; exact Nat.zero_le _,
        fun valid => ?_⟩
      rw [invalid] at valid
      cases valid
    · rintro before label after ⟨taken, counted⟩ ⟨sound, agrees⟩
      exact ⟨step_sound sound taken, step_agrees sound agrees taken counted⟩
  exact agreement_of_agrees kept.agrees

/-- One frame is added and read. -/
theorem semaphores_agree_one_frame :
    ∃ net, RunIf Counted onePage
        [.req, .add ⟨[1, 2, 3], 7, fun _ => 1⟩, .semReq firstReader, .take firstReader 16,
          .add ⟨[4], 7, fun _ => 1⟩] net ∧
      net.pool.sems firstReader = 1 ∧ net.Agreement := by
  obtain ⟨net, run, signals⟩ := @Runs.of_any_guarded Net Label onePage step Counted _
    [.req, .add ⟨[1, 2, 3], 7, fun _ => 1⟩, .semReq firstReader, .take firstReader 16,
      .add ⟨[4], 7, fun _ => 1⟩]
    (fun net => decide (net.pool.sems firstReader = 1)) (by decide +kernel)
  exact ⟨net, run, of_decide_eq_true signals, semaphores_agree created_onePage run⟩

/-- A place moved over the only frame leaves the signal for it behind: the next read is granted
with nothing left to read. -/
theorem signal_without_frame :
    ∃ net, created 4096 4096 (-1) = .ok onePage ∧
      Run onePage [.req, .add ⟨[1, 2, 3], 7, fun _ => 1⟩, .mvUsrPlace firstReader 1] net ∧
      (net.pool.users firstReader).valid = true ∧ net.granted firstReader = 0 ∧
      net.pool.sems firstReader = 1 ∧ net.pool.unread firstReader = 0 ∧
      (net.pool.semReq firstReader).isSome = true := by
  obtain ⟨net, run, facts⟩ := @Runs.of_any Net Label onePage step
    [.req, .add ⟨[1, 2, 3], 7, fun _ => 1⟩, .mvUsrPlace firstReader 1]
    (fun net => decide ((net.pool.users firstReader).valid = true ∧ net.granted firstReader = 0 ∧
      net.pool.sems firstReader = 1 ∧ net.pool.unread firstReader = 0 ∧
      (net.pool.semReq firstReader).isSome = true)) (by decide +kernel)
  exact ⟨net, created_onePage, run, of_decide_eq_true facts⟩

end Net

end ExmOnvif.Pool
