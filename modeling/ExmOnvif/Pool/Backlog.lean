/-
This file is about readers that do not keep up, or whose place is moved: when a read
is given an element that is still in the pool, and when a reader's semaphore counts
what it has left to read.

The producer frees elements without a look at the readers, the semaphore is raised
only for readers that count as valid, and moving a reader's place leaves its
semaphore as it is. What has to hold of the calls for the three to agree is said
for each call, on the state it finds.
-/

import ExmOnvif.Pool.Delivery

namespace ExmOnvif.Pool

open Library

namespace ShPool

/-! ### Places on the ring of elements -/

/-- The number of elements from a reader's place up to the tail. -/
def unread (pool : ShPool) (userno : Nat) : Nat :=
  (pool.tail + maxEle - (pool.users userno).curele) % maxEle

/-- The steps from an index forward to another one, a whole turn when they are equal. -/
def stepsTo (cur stop : Nat) : Nat := (stop + maxEle - cur - 1) % maxEle + 1

theorem olderEle_eq {cur : Nat} (below : cur < maxEle) :
    olderEle cur = (cur + (maxEle - 1)) % maxEle := by
  unfold olderEle maxEle at *
  split <;> omega

/-- Moving forward ends at the tail or after the steps asked for. -/
theorem movePlace_newer {stop turns moved cur : Nat} (stopBelow : stop < maxEle)
    (below : cur < maxEle) :
    movePlace newerEle stop turns moved cur =
      (moved + min turns (stepsTo cur stop), (cur + min turns (stepsTo cur stop)) % maxEle) := by
  induction turns generalizing moved cur with
  | zero =>
    rw [movePlace, Nat.zero_min, Nat.add_zero, Nat.add_zero, Nat.mod_eq_of_lt below]
  | succ turns inductionHypothesis =>
    have next := newerEle_eq below
    rw [movePlace]
    split
    · rename_i reached
      have one : stepsTo cur stop = 1 := by
        unfold stepsTo maxEle at *
        omega
      rw [one, Nat.min_eq_right (Nat.succ_pos turns), next]
    · rename_i short
      have more : stepsTo cur stop = stepsTo (newerEle cur) stop + 1 := by
        unfold stepsTo maxEle at *
        omega
      rw [inductionHypothesis (newerEle_lt cur), more, Nat.succ_min_succ, next, offset_mod]
      refine Prod.ext_iff.mpr ⟨?_, ?_⟩
      · show moved + 1 + _ = moved + (_ + 1)
        omega
      · show (cur + 1 + _) % maxEle = (cur + (_ + 1)) % maxEle
        congr 1
        omega

/-- Moving backward ends at the head or after the steps asked for. -/
theorem movePlace_older {stop turns moved cur : Nat} (stopBelow : stop < maxEle)
    (below : cur < maxEle) :
    movePlace olderEle stop turns moved cur =
      (moved + min turns (stepsTo stop cur),
        (cur + maxEle - min turns (stepsTo stop cur)) % maxEle) := by
  induction turns generalizing moved cur with
  | zero =>
    rw [movePlace, Nat.zero_min, Nat.add_zero, Nat.sub_zero, Nat.add_mod_right,
      Nat.mod_eq_of_lt below]
  | succ turns inductionHypothesis =>
    have next := olderEle_eq below
    have nextBelow : olderEle cur < maxEle := by
      rw [next]
      exact Nat.mod_lt _ (Nat.succ_pos _)
    rw [movePlace]
    split
    · rename_i reached
      have one : stepsTo stop cur = 1 := by
        unfold stepsTo maxEle at *
        omega
      rw [one, Nat.min_eq_right (Nat.succ_pos turns), next]
      rfl
    · rename_i short
      have more : stepsTo stop cur = stepsTo stop (olderEle cur) + 1 := by
        unfold stepsTo maxEle at *
        omega
      have few : min turns (stepsTo stop (olderEle cur)) < maxEle := by
        refine Nat.lt_of_le_of_lt (Nat.min_le_right _ _) ?_
        have turn : stepsTo stop cur ≤ maxEle := Nat.mod_lt _ (Nat.succ_pos _)
        omega
      rw [inductionHypothesis nextBelow, more, Nat.succ_min_succ]
      refine Prod.ext_iff.mpr ⟨?_, ?_⟩
      · show moved + 1 + _ = moved + (_ + 1)
        omega
      · show (olderEle cur + maxEle - _) % maxEle = (cur + maxEle - (_ + 1)) % maxEle
        generalize min turns (stepsTo stop (olderEle cur)) = back at *
        unfold maxEle at *
        omega

/-- The index a read that has been granted reads at. -/
def readEle (pool : ShPool) (userno : Nat) : Option Nat :=
  (pool.resetUsr userno).map fun reset => (reset.users userno).curele

/-- From its place a reader comes to the tail. -/
theorem unread_place {pool : ShPool} (sound : pool.Sound) {userno : Nat}
    (below : (pool.users userno).curele < maxEle) :
    ((pool.users userno).curele + pool.unread userno) % maxEle = pool.tail :=
  add_gap below sound.tail_lt

theorem stepsTo_of_ne {cur stop : Nat} (below : cur < maxEle) (stopBelow : stop < maxEle)
    (apart : cur ≠ stop) : stepsTo cur stop = gap maxEle cur stop := by
  unfold stepsTo gap maxEle at *
  omega

theorem gap_le_stepsTo {cur stop : Nat} (below : cur < maxEle) (stopBelow : stop < maxEle) :
    gap maxEle cur stop ≤ stepsTo cur stop := by
  by_cases same : cur = stop
  · rw [same, gap, Nat.add_sub_cancel_left, Nat.mod_self]
    exact Nat.zero_le _
  · exact (stepsTo_of_ne below stopBelow same).ge

end ShPool

namespace Net

/-! ### Reads of elements that are in the pool -/

/-- Every read that is under way is at an element from the head up to the tail, and what it is
given is the frame of that element. -/
def ReadsLive (net : Net) : Prop :=
  ∀ userno : Fin maxUsers, net.granted userno ≠ 0 →
    ∃ offset < net.pool.count,
      net.pool.readEle userno = some ((net.pool.head + offset) % maxEle) ∧
      ∀ buflen packet after, net.pool.getResource userno buflen = some (.ok packet, after) →
        packet = net.pool.packet (net.pool.eles ((net.pool.head + offset) % maxEle))

/-- The reader is signalled, or has reads to come. -/
def Active (net : Net) (userno : Nat) : Prop :=
  (net.pool.users userno).valid = true ∨ net.pool.sems userno + net.granted userno ≠ 0

instance (net : Net) (userno : Nat) : Decidable (net.Active userno) :=
  inferInstanceAs (Decidable (_ ∨ _))

/-- What has to hold of the calls. An added frame finds room without the elements that are left to
an active reader. A reader's place is moved back only from behind the head, and moved on only over
elements the semaphore does not count any more. A reader that was taken to be gone comes back only
to a place between head and tail. A slot is not handed out while a read of it is under way. -/
def InPlace (net : Net) : Label → Prop
  | .add call =>
    ∀ userno : Fin maxUsers, net.Active userno → net.pool.unread userno = 0 ∨
      net.pool.Spares (net.pool.unread userno) (ShPool.needBlock call.buf.length)
  | .mvUsrPlace userno place =>
    net.Active userno →
      (place < 0 → (net.pool.users userno).curele ≠ net.pool.head) ∧
      (0 < place → place.toNat + (net.pool.sems userno + net.granted userno) ≤
        net.pool.unread userno)
  | .reActiveUsr userno => net.Active userno ∨ net.pool.unread userno ≤ net.pool.count
  | .req => ∀ attached ∈ net.pool.req.toOption, net.granted attached.1 = 0
  | _ => True

/-- What the reader may still read is in the pool, and is as much as its reads to come. -/
structure Backed (net : Net) (userno : Nat) : Prop where
  below : (net.pool.users userno).curele < maxEle
  signals : net.Active userno →
    net.pool.sems userno + net.granted userno ≤ net.pool.unread userno
  within : net.Active userno → net.pool.unread userno ≤ net.pool.count

theorem Backed.of_untouched {net next : Net} {userno : Nat} (backed : net.Backed userno)
    (same : ShPool.Untouched net.pool next.pool)
    (usr : next.pool.users userno = net.pool.users userno)
    (signals : next.pool.sems userno + next.granted userno =
      net.pool.sems userno + net.granted userno) : next.Backed userno := by
  have active : next.Active userno ↔ net.Active userno := by
    unfold Active
    rw [usr, signals]
  have unread : next.pool.unread userno = net.pool.unread userno := by
    unfold ShPool.unread
    rw [usr, same.tail]
  refine ⟨by rw [usr]; exact backed.below, fun lively => ?_, fun lively => ?_⟩
  · rw [signals, unread]
    exact backed.signals (active.mp lively)
  · rw [unread, same.count]
    exact backed.within (active.mp lively)

/-- A read under way is at an element of the pool. -/
theorem Backed.granted {net : Net} {userno : Nat} (backed : net.Backed userno)
    (granted : net.granted userno ≠ 0) :
    net.pool.unread userno ≠ 0 ∧ net.pool.unread userno ≤ net.pool.count := by
  have active : net.Active userno := Or.inr (by omega)
  have signals := backed.signals active
  exact ⟨by omega, backed.within active⟩

theorem readsLive_of_backed {net : Net} (sound : net.Sound)
    (backed : ∀ userno : Fin maxUsers, net.Backed userno) : net.ReadsLive := by
  intro userno granted
  obtain ⟨pending, within⟩ := (backed userno).granted granted
  have reached := ShPool.unread_place sound.1 (backed userno).below
  have reset := ShPool.resetUsr_of_place sound.1 sound.2
    (backed userno).below pending within reached
  have place := ShPool.curele_of_place sound.1 (backed userno).below within reached
  refine ⟨net.pool.count - net.pool.unread userno, by omega, ?_,
    fun buflen packet after taken => ?_⟩
  · rw [ShPool.readEle, reset, ← place]
    rfl
  · obtain ⟨again, found, _, _, outcome⟩ := ShPool.getResource_cases taken
    rw [reset] at found
    cases found
    have member : net.pool.eles (net.pool.users userno).curele ∈ net.pool.live := by
      rw [place]
      exact mem_ringList.mpr ⟨_, by omega, rfl⟩
    rcases outcome with ⟨given, same, copied, _⟩ | ⟨_, same, _⟩
    · cases same
      have fits : (net.pool.eles (net.pool.users userno).curele).datalen ≤ buflen := by
        simp only [ShPool.saveEle2Buf] at copied
        split at copied
        · cases copied
        · rename_i fits
          exact Nat.not_lt.mp fits
      rw [ShPool.saveEle2Buf_live sound.1 member fits] at copied
      cases copied
      rw [place]
    · cases same

/-- The tail moved on. -/
theorem unread_added {pool added : ShPool} {semVals : Nat → Nat} {userno : Nat}
    (sound : pool.Sound) (tail : added.tail = ShPool.newerEle pool.tail)
    (users : added.users = pool.users) (below : (pool.users userno).curele < maxEle)
    (short : pool.unread userno + 1 < maxEle) :
    (added.semAddAll semVals).unread userno = pool.unread userno + 1 := by
  have moved : (added.semAddAll semVals).tail = (pool.tail + 1) % maxEle := by
    rw [← ShPool.newerEle_eq sound.tail_lt]
    exact tail
  rw [ShPool.unread, ShPool.semAddAll_curele, users, moved]
  exact gap_newer below sound.tail_lt short

/-- The reader moved on. -/
theorem unread_taken {pool after : ShPool} {userno : Nat}
    (below : (pool.users userno).curele < maxEle) (inside : pool.tail < maxEle)
    (curele : (after.users userno).curele = ((pool.users userno).curele + 1) % maxEle)
    (tail : after.tail = pool.tail) (pending : pool.unread userno ≠ 0) :
    after.unread userno = pool.unread userno - 1 := by
  rw [ShPool.unread, curele, tail]
  exact gap_forward below inside (Nat.one_le_iff_ne_zero.mpr pending)

/-- A reader that was not active is not signalled by a new frame. -/
theorem active_of_added {net : Net} {userno : Fin maxUsers} {call : ShPool.Call} {added : ShPool}
    {released : Nat} {sent : List ShPool.Packet}
    (kept : ShPool.Added net.pool added call.buf call.flag released)
    (lively : ({ net with pool := added.semAddAll call.semVals, sent := sent } : Net).Active
      userno) :
    net.Active userno := by
  have usr : added.users userno = net.pool.users userno := by rw [kept.users]
  by_contra idle
  obtain ⟨invalid, nothing⟩ := not_or.mp idle
  obtain ⟨sems, users⟩ := @ShPool.semAddAll_invalid added call.semVals userno
    (by rw [usr]; exact Bool.not_eq_true _ ▸ invalid)
  refine idle (lively.imp (fun valid => ?_) fun pending => ?_)
  · rw [users, usr] at valid
    exact valid
  · rw [sems, kept.sems] at pending
    exact pending

theorem Backed.added {net : Net} {userno : Fin maxUsers} {call : ShPool.Call} {added : ShPool}
    {released : Nat} (backed : net.Backed userno) (sound : net.Sound)
    (kept : ShPool.Added net.pool added call.buf call.flag released)
    (under : added.count < maxEle)
    (enough : net.Active userno → net.pool.unread userno < added.count)
    (sent : List ShPool.Packet) :
    ({ net with pool := added.semAddAll call.semVals, sent := sent } : Net).Backed userno := by
  have curele : ((added.semAddAll call.semVals).users userno).curele =
      (net.pool.users userno).curele := by rw [ShPool.semAddAll_curele, kept.users]
  have unread (lively : net.Active userno) :
      (added.semAddAll call.semVals).unread userno = net.pool.unread userno + 1 := by
    have enough := enough lively
    exact unread_added sound.1 kept.tail kept.users backed.below (by omega)
  have signals : (added.semAddAll call.semVals).sems userno ≤ net.pool.sems userno + 1 := by
    rw [← kept.sems]
    exact ShPool.semAddAll_le added call.semVals userno
  refine ⟨by rw [curele]; exact backed.below, fun lively => ?_, fun lively => ?_⟩
  · have unread := unread (active_of_added kept lively)
    have least := backed.signals (active_of_added kept lively)
    show (added.semAddAll call.semVals).sems userno + net.granted userno ≤
      (added.semAddAll call.semVals).unread userno
    omega
  · have unread := unread (active_of_added kept lively)
    have enough := enough (active_of_added kept lively)
    show (added.semAddAll call.semVals).unread userno ≤ added.count
    omega

theorem Backed.freed {net : Net} {userno : Fin maxUsers} {freed : ShPool} {released : Nat}
    (backed : net.Backed userno) (kept : ShPool.Released net.pool freed released)
    (read : net.Active userno → net.pool.unread userno = 0) :
    ({ net with pool := freed } : Net).Backed userno := by
  have usr : freed.users userno = net.pool.users userno := by rw [kept.users]
  have unread : freed.unread userno = net.pool.unread userno := by
    unfold ShPool.unread
    rw [usr, kept.tail]
  have before : ({ net with pool := freed } : Net).Active userno → net.Active userno := by
    unfold Active
    rw [show ({ net with pool := freed } : Net).pool.users userno = _ from usr,
      show ({ net with pool := freed } : Net).pool.sems = _ from kept.sems]
    exact id
  refine ⟨by rw [usr]; exact backed.below, fun lively => ?_, fun lively => ?_⟩
  · show freed.sems userno + net.granted userno ≤ freed.unread userno
    rw [kept.sems, unread]
    exact backed.signals (before lively)
  · have none := read (before lively)
    show freed.unread userno ≤ freed.count
    omega

theorem Backed.add {net next : Net} {userno : Fin maxUsers} {call : ShPool.Call}
    (backed : net.Backed userno) (sound : net.Sound) (taken : net.step (.add call) = some next)
    (spared : net.Active userno → net.pool.unread userno = 0 ∨
      net.pool.Spares (net.pool.unread userno) (ShPool.needBlock call.buf.length)) :
    next.Backed userno := by
  rcases step_add sound.1 sound.2 taken with
    ⟨added, released, kept, _, under, spares, rfl⟩ |
    ⟨freed, released, kept, _, empty, _, spares, rfl⟩
  · refine backed.added sound kept under (fun lively => ?_) _
    rcases spared lively with none | room
    · have count := kept.count
      have few := kept.few
      omega
    · exact spares _ (backed.within lively) room
  · exact backed.freed kept fun lively =>
      (spared lively).elim id (spares _ (backed.within lively))

theorem Backed.take {net next : Net} {userno : Fin maxUsers} {buflen : Nat}
    (backed : net.Backed userno) (sound : net.Sound)
    (taken : net.step (.take userno buflen) = some next) : next.Backed userno := by
  obtain ⟨granted, result, after, found, rfl⟩ := step_take taken
  obtain ⟨pending, within⟩ := backed.granted granted
  have signals := backed.signals (Or.inr (by omega))
  have reset := ShPool.resetUsr_of_place sound.1 sound.2 backed.below pending within
    (ShPool.unread_place sound.1 backed.below)
  obtain ⟨again, same, untouched, sems, outcome⟩ := ShPool.getResource_cases found
  rw [reset] at same
  cases same
  have less : Function.update net.granted userno (net.granted userno - 1) userno =
      net.granted userno - 1 := Function.update_self _ _ _
  rcases outcome with ⟨packet, rfl, _, users⟩ | ⟨errno, rfl, _, users⟩
  · have curele : (after.users userno).curele =
        ((net.pool.users userno).curele + 1) % maxEle := by
      rw [users, Function.update_self, ← ShPool.newerEle_eq backed.below]
    have unread : after.unread userno = net.pool.unread userno - 1 :=
      unread_taken backed.below sound.1.tail_lt curele untouched.tail pending
    refine ⟨?_, fun _ => ?_, fun _ => ?_⟩
    · show (after.users userno).curele < maxEle
      rw [curele]
      exact Nat.mod_lt _ (Nat.succ_pos _)
    · show after.sems userno + Function.update net.granted userno _ userno ≤ after.unread userno
      rw [sems, less, unread]
      omega
    · show after.unread userno ≤ after.count
      rw [unread, untouched.count]
      omega
  · have unread : after.unread userno = net.pool.unread userno := by
      unfold ShPool.unread
      rw [users, untouched.tail]
    refine ⟨?_, fun _ => ?_, fun _ => ?_⟩
    · show (after.users userno).curele < maxEle
      rw [users]
      exact backed.below
    · show after.sems userno + Function.update net.granted userno _ userno ≤ after.unread userno
      rw [sems, less, unread]
      omega
    · show after.unread userno ≤ after.count
      rw [unread, untouched.count]
      exact within

/-- A place moved back ends at the head or before it. -/
theorem unread_older {pool : ShPool} {userno : Nat} {place : Int} (sound : pool.Sound)
    (room : pool.count < maxEle) (below : (pool.users userno).curele < maxEle)
    (within : pool.unread userno ≤ pool.count) (back : place < 0)
    (apart : (pool.users userno).curele ≠ pool.head) :
    pool.unread userno ≤ (pool.mvUsrPlace userno place).2.unread userno ∧
      (pool.mvUsrPlace userno place).2.unread userno ≤ pool.count := by
  have steps : ShPool.stepsTo pool.head (pool.users userno).curele =
      pool.count - pool.unread userno := by
    rw [ShPool.stepsTo_of_ne sound.head below apart.symm]
    refine gap_unique sound.head (by omega) ?_
    exact (ShPool.curele_of_place sound below within (ShPool.unread_place sound below)).symm
  have few : min place.natAbs (pool.count - pool.unread userno) ≤
    pool.count - pool.unread userno := Nat.min_le_right _ _
  have moved : (pool.mvUsrPlace userno place).2.unread userno =
      pool.unread userno + min place.natAbs (pool.count - pool.unread userno) := by
    simp only [ShPool.unread, ShPool.mvUsrPlace, if_pos back, Function.update_self]
    rw [ShPool.movePlace_older sound.head below, steps]
    refine gap_backward below sound.tail_lt ?_
    show pool.unread userno + _ < maxEle
    omega
  omega

/-- A place moved on no further than the tail. -/
theorem unread_newer {pool : ShPool} {userno : Nat} {place : Int} (sound : pool.Sound)
    (below : (pool.users userno).curele < maxEle) (forward : 0 ≤ place)
    (short : place.toNat ≤ pool.unread userno) :
    (pool.mvUsrPlace userno place).2.unread userno = pool.unread userno - place.toNat := by
  have amount : place.natAbs = place.toNat := by omega
  have steps : place.toNat ≤ ShPool.stepsTo (pool.users userno).curele pool.tail :=
    short.trans (ShPool.gap_le_stepsTo below sound.tail_lt)
  simp only [ShPool.unread, ShPool.mvUsrPlace, if_neg (Int.not_lt.mpr forward),
    Function.update_self]
  rw [ShPool.movePlace_newer sound.tail_lt below, amount, Nat.min_eq_left steps]
  exact gap_forward below sound.tail_lt short

theorem mvUsrPlace_below {pool : ShPool} {userno : Nat} (place : Int) (sound : pool.Sound)
    (below : (pool.users userno).curele < maxEle) :
    ((pool.mvUsrPlace userno place).2.users userno).curele < maxEle := by
  simp only [ShPool.mvUsrPlace, Function.update_self]
  split
  · rw [ShPool.movePlace_older sound.head below]
    exact Nat.mod_lt _ (Nat.succ_pos _)
  · rw [ShPool.movePlace_newer sound.tail_lt below]
    exact Nat.mod_lt _ (Nat.succ_pos _)

/-- No step makes a reader leave the ring of elements. -/
theorem step_below {net next : Net} {label : Label} (sound : net.Sound)
    (below : ∀ userno : Fin maxUsers, (net.pool.users userno).curele < maxEle)
    (taken : net.step label = some next) (userno : Fin maxUsers) :
    (next.pool.users userno).curele < maxEle := by
  have tail := sound.1.tail_lt
  by_cases foreign : net.Foreign userno label
  · rw [(step_foreign taken foreign).users]
    exact below userno
  · cases label with
    | add call =>
      rcases step_add sound.1 sound.2 taken with
        ⟨added, _, kept, _, _, _, rfl⟩ | ⟨freed, _, kept, _, _, _, _, rfl⟩
      · rw [ShPool.semAddAll_curele, kept.users]
        exact below userno
      · rw [kept.users]
        exact below userno
    | semReq other =>
      obtain ⟨_, rfl⟩ := step_semReq taken
      exact below userno
    | take other buflen =>
      obtain rfl := not_not.mp foreign
      obtain ⟨_, _, after, found, rfl⟩ := step_take taken
      obtain ⟨reset, recovered, _, _, outcome⟩ := ShPool.getResource_cases found
      show (after.users other).curele < maxEle
      rcases outcome with ⟨_, _, _, users⟩ | ⟨_, _, _, users⟩
      · rw [users, Function.update_self]
        exact ShPool.newerEle_lt _
      · rw [users]
        rcases ShPool.resetUsr_cases recovered with rfl | ⟨_, rfl⟩
        · exact below other
        · simp only [Function.update_self]
          omega
    | mvUsrPlace other place =>
      obtain rfl := not_not.mp foreign
      cases taken
      exact mvUsrPlace_below place sound.1 (below other)
    | reActiveUsr other =>
      obtain rfl := not_not.mp foreign
      cases taken
      rw [(ShPool.reActiveUsr_curele net.pool other).1]
      exact below other
    | req =>
      obtain ⟨_, _, _, rfl⟩ := step_req_own taken foreign
      show (Function.update net.pool.users userno ⟨true, net.pool.tail⟩ userno).curele < maxEle
      rw [Function.update_self]
      exact tail

theorem Backed.mvUsrPlace {net : Net} {userno : Fin maxUsers} {place : Int}
    (backed : net.Backed userno) (sound : net.Sound)
    (inPlace : net.InPlace (.mvUsrPlace userno place)) :
    ({ net with pool := (net.pool.mvUsrPlace userno place).2 } : Net).Backed userno := by
  have before : ({ net with pool := (net.pool.mvUsrPlace userno place).2 } : Net).Active userno →
      net.Active userno := by
    refine Or.imp (fun valid => ?_) id
    simpa only [ShPool.mvUsrPlace, Function.update_self] using valid
  have outcome : net.Active userno →
      net.pool.sems userno + net.granted userno ≤
          (net.pool.mvUsrPlace userno place).2.unread userno ∧
        (net.pool.mvUsrPlace userno place).2.unread userno ≤ net.pool.count := by
    intro lively
    have signals := backed.signals lively
    have within := backed.within lively
    obtain ⟨older, newer⟩ := inPlace lively
    by_cases back : place < 0
    · obtain ⟨more, less⟩ := unread_older sound.1 sound.2 backed.below within back (older back)
      exact ⟨by omega, less⟩
    · have forward : 0 ≤ place := Int.not_lt.mp back
      have short : place.toNat + (net.pool.sems userno + net.granted userno) ≤
          net.pool.unread userno := by
        by_cases positive : 0 < place
        · exact newer positive
        · have none : place.toNat = 0 := by omega
          rw [none, Nat.zero_add]
          exact signals
      rw [unread_newer sound.1 backed.below forward (by omega)]
      omega
  exact ⟨mvUsrPlace_below place sound.1 backed.below, fun lively => (outcome (before lively)).1,
    fun lively => (outcome (before lively)).2⟩

theorem Backed.reActiveUsr {net : Net} {userno : Fin maxUsers} (backed : net.Backed userno)
    (inPlace : net.InPlace (.reActiveUsr userno)) :
    ({ net with pool := (net.pool.reActiveUsr userno).2 } : Net).Backed userno := by
  by_cases valid : (net.pool.users userno).valid = true
  · have same : (net.pool.reActiveUsr userno).2 = net.pool := by
      rw [ShPool.reActiveUsr, if_pos valid]
    rw [same]
    exact backed
  · have same : (net.pool.reActiveUsr userno).2 =
        { net.pool with
          users := Function.update net.pool.users userno
            { net.pool.users userno with valid := true } } := by
      rw [ShPool.reActiveUsr, if_neg valid]
    have unread : (net.pool.reActiveUsr userno).2.unread userno = net.pool.unread userno := by
      rw [same]
      simp only [ShPool.unread, Function.update_self]
    have sems : (net.pool.reActiveUsr userno).2.sems = net.pool.sems := by rw [same]
    have count : (net.pool.reActiveUsr userno).2.count = net.pool.count := by rw [same]
    refine ⟨?_, fun _ => ?_, fun _ => ?_⟩
    · show ((net.pool.reActiveUsr userno).2.users userno).curele < maxEle
      simp only [same, Function.update_self]
      exact backed.below
    · show (net.pool.reActiveUsr userno).2.sems userno + net.granted userno ≤
        (net.pool.reActiveUsr userno).2.unread userno
      rw [unread, sems]
      by_cases pending : net.pool.sems userno + net.granted userno = 0
      · rw [pending]
        exact Nat.zero_le _
      · exact backed.signals (Or.inr pending)
    · show (net.pool.reActiveUsr userno).2.unread userno ≤ (net.pool.reActiveUsr userno).2.count
      rw [unread, count]
      exact inPlace.elim backed.within id

/-- Every call in place keeps every reader backed. -/
theorem step_backed {net next : Net} {label : Label} (sound : net.Sound)
    (backed : ∀ userno : Fin maxUsers, net.Backed userno) (taken : net.step label = some next)
    (inPlace : net.InPlace label) (userno : Fin maxUsers) : next.Backed userno := by
  by_cases foreign : net.Foreign userno label
  · have aside := step_foreign taken foreign
    exact (backed userno).of_untouched aside.untouched aside.users
      (by rw [aside.sems, aside.granted])
  · cases label with
    | add call => exact (backed userno).add sound taken (inPlace userno)
    | semReq other =>
      obtain ⟨some, rfl⟩ := step_semReq taken
      exact (backed userno).of_untouched (ShPool.Untouched.of_readers _ _ _ _) rfl
        (semReq_signals some userno)
    | take other buflen =>
      obtain rfl := not_not.mp foreign
      exact (backed other).take sound taken
    | mvUsrPlace other place =>
      obtain rfl := not_not.mp foreign
      cases taken
      exact (backed other).mvUsrPlace sound inPlace
    | reActiveUsr other =>
      obtain rfl := not_not.mp foreign
      cases taken
      exact (backed other).reActiveUsr inPlace
    | req =>
      obtain ⟨pool, attached, _, rfl⟩ := step_req_own taken foreign
      have idle : net.granted userno = 0 := inPlace (_, pool) (by rw [attached]; rfl)
      refine ⟨?_, fun _ => ?_, fun _ => ?_⟩
      · show (Function.update net.pool.users userno ⟨true, net.pool.tail⟩ userno).curele < maxEle
        rw [Function.update_self]
        exact sound.1.tail_lt
      · show Function.update net.pool.sems userno 0 userno + net.granted userno ≤ _
        rw [Function.update_self, idle]
        exact Nat.zero_le _
      · simp only [ShPool.unread, Function.update_self]
        rw [Nat.add_sub_cancel_left, Nat.mod_self]
        exact Nat.zero_le _

theorem created_backed {pagesize : Nat} {bytes newmaxsem : Int} {net : Net}
    (start : created pagesize bytes newmaxsem = .ok net) (userno : Nat) : net.Backed userno := by
  have blank : (net.pool.users userno).valid = false ∧ (net.pool.users userno).curele = 0 ∧
      net.pool.sems userno = 0 ∧ net.granted userno = 0 := created_blank start userno
  obtain ⟨invalid, curele, sems, granted⟩ := blank
  have idle : ¬net.Active userno := by
    rintro (valid | pending)
    · rw [invalid] at valid
      cases valid
    · exact pending (by rw [sems, granted])
  exact ⟨by rw [curele]; exact Nat.succ_pos _, fun lively => absurd lively idle,
    fun lively => absurd lively idle⟩

/-- The pool is sound and every reader is backed. -/
structure Supplied (net : Net) : Prop where
  sound : net.Sound
  backed : ∀ userno : Fin maxUsers, net.Backed userno

/-- As long as every call is in place, every read is given an element that is in the pool. -/
theorem reads_live {pagesize : Nat} {bytes newmaxsem : Int} {start net : Net} {labels : List Label}
    (begun : created pagesize bytes newmaxsem = .ok start) (run : RunIf InPlace start labels net) :
    net.ReadsLive := by
  have kept : net.Supplied := by
    refine run.invariant ⟨created_sound begun, fun userno => created_backed begun userno⟩ ?_
    rintro before label after ⟨taken, inPlace⟩ ⟨sound, backed⟩
    exact ⟨step_sound sound taken, step_backed sound backed taken inPlace⟩
  exact readsLive_of_backed kept.sound kept.backed

instance (net : Net) : ∀ label, Decidable (net.InPlace label)
  | .add _ => inferInstanceAs (Decidable (∀ userno : Fin maxUsers, net.Active userno →
      net.pool.unread userno = 0 ∨ (_ ∧ _)))
  | .mvUsrPlace userno _ => inferInstanceAs (Decidable (net.Active userno → _ ∧ _))
  | .reActiveUsr userno => inferInstanceAs (Decidable (net.Active userno ∨ _))
  | .req => inferInstanceAs (Decidable (∀ attached ∈ net.pool.req.toOption, _))
  | .semReq _ => isTrue trivial
  | .take _ _ => isTrue trivial

/-- Two frames are read before the third one takes their place, around the end of the blocks. -/
theorem reads_live_three_frames :
    ∃ net, RunIf InPlace onePage
        [.req, .add (ShPool.threeBlocks 1), .semReq firstReader, .take firstReader 2048,
          .add (ShPool.threeBlocks 1), .semReq firstReader, .take firstReader 2048,
          .add (ShPool.threeBlocks 1), .semReq firstReader] net ∧
      net.granted firstReader = 1 ∧ net.pool.count = 1 ∧ (net.pool.eles 2).bblock = 6 ∧
      net.ReadsLive := by
  obtain ⟨net, run, facts⟩ := @Runs.of_any_guarded Net Label onePage step InPlace _
    [.req, .add (ShPool.threeBlocks 1), .semReq firstReader, .take firstReader 2048,
      .add (ShPool.threeBlocks 1), .semReq firstReader, .take firstReader 2048,
      .add (ShPool.threeBlocks 1), .semReq firstReader]
    (fun net => decide (net.granted firstReader = 1 ∧ net.pool.count = 1 ∧
      (net.pool.eles 2).bblock = 6)) (by decide +kernel)
  obtain ⟨granted, count, place⟩ := of_decide_eq_true facts
  exact ⟨net, run, granted, count, place, reads_live created_onePage run⟩

/-- A frame of half a page. -/
def halfPage (semVal : Nat) : ShPool.Call := ⟨List.replicate 2048 0, 7, fun _ => semVal⟩

/-- The second frame of half a page releases the first one under its reader, which is then given
the released element: no bytes, under the first frame's number. -/
theorem freed_element_read :
    ∃ net packet after, created 4096 4096 (-1) = .ok onePage ∧
      Run onePage [.req, .add (halfPage 1), .add (halfPage 2), .semReq firstReader] net ∧
      net.granted firstReader = 1 ∧
      net.pool.getResource firstReader 4096 = some (.ok packet, after) ∧
      packet = ⟨[], 0, 1, 7⟩ ∧
      ∃ cur, net.pool.readEle firstReader = some cur ∧
        ∀ offset < net.pool.count, cur ≠ (net.pool.head + offset) % maxEle := by
  obtain ⟨net, run, facts⟩ := @Runs.of_any Net Label onePage step
    [.req, .add (halfPage 1), .add (halfPage 2), .semReq firstReader]
    (fun net => decide (net.granted firstReader = 1 ∧ net.pool.count = 1 ∧ net.pool.head = 1 ∧
      net.pool.readEle firstReader = some 0 ∧
      (net.pool.getResource firstReader 4096).map (fun result => result.1.toOption) =
        some (some ⟨[], 0, 1, 7⟩))) (by decide +kernel)
  obtain ⟨granted, count, head, place, given⟩ := of_decide_eq_true facts
  obtain ⟨⟨result, after⟩, found, same⟩ := Option.map_eq_some_iff.mp given
  cases result with
  | error errno => cases same
  | ok packet =>
    cases same
    refine ⟨net, _, after, created_onePage, run, granted, found, rfl, 0, place,
      fun offset below => ?_⟩
    rw [count] at below
    rw [Nat.lt_one_iff.mp below, head]
    decide

end Net

end ExmOnvif.Pool
