/-
This file is about `MShmEleRemain`, which is to say how many elements a reader has not read yet.

It takes the difference of two sequence numbers: that of the newest element, and that of the
element the reader stands at, which it has not read either. Between the tail, where it returns
zero, and the newest element, where it returns zero again, one element is lost.
-/

import ExmOnvif.Pool.Backlog

namespace ExmOnvif.Pool

open Library

namespace ShPool

/-- `MShmEleRemain`. The sequence numbers are compared as `int`. -/
def eleRemain (pool : ShPool) (userno : Nat) : Int32 :=
  let ele := pool.eles (pool.users userno).curele
  if (pool.users userno).curele = pool.tail then 0
  else if ele.num.toInt32 ≤ pool.num.toInt32 then pool.num.toInt32 - ele.num.toInt32
  else pool.num.toInt32

/-- The reader's place is that of a live element, or the tail. -/
def InWindow (pool : ShPool) (userno : Nat) : Prop :=
  (pool.users userno).curele = pool.tail ∨
    ∃ offset < pool.count, (pool.users userno).curele = (pool.head + offset) % maxEle

/-! ### What is left to read -/

section Place

variable {pool : ShPool} {userno offset : Nat} (sound : pool.Sound)
  (room : pool.count < maxEle) (inside : offset < pool.count)
  (place : (pool.users userno).curele = (pool.head + offset) % maxEle)

include sound room inside place

/-- From a live element to the tail. -/
theorem unread_of_live : pool.unread userno = pool.count - offset := by
  have tail := sound.tail
  rw [unread, place, tail]
  unfold maxEle at *
  omega

theorem curele_ne_tail : (pool.users userno).curele ≠ pool.tail := by
  rw [place, sound.tail]
  exact offset_ne inside (by omega)

/-- A read is given the element the reader stands at, and moves the reader on. -/
theorem getResource_of_live {buflen : Nat} (fits : ∀ ele ∈ pool.live, ele.datalen ≤ buflen) :
    ∃ after, pool.getResource userno buflen =
        some (.ok (pool.packet (pool.eles ((pool.head + offset) % maxEle))), after) ∧
      Untouched pool after ∧ (after.users userno).curele = (pool.head + (offset + 1)) % maxEle := by
  have below : (pool.users userno).curele < maxEle := by
    rw [place]
    exact Nat.mod_lt _ (Nat.succ_pos _)
  have member : pool.eles ((pool.head + offset) % maxEle) ∈ pool.live :=
    mem_ringList.mpr ⟨offset, inside, rfl⟩
  have left : pool.unread userno = pool.count - offset := unread_of_live sound room inside place
  have stays : pool.resetUsr userno = some pool := by
    refine resetUsr_of_place sound room below ?_ ?_ (unread_place sound below)
    · omega
    · omega
  refine ⟨{ pool with
    users := Function.update pool.users userno
      { pool.users userno with curele := newerEle ((pool.head + offset) % maxEle) } }, ?_,
    Untouched.of_readers pool _ pool.sems pool.lastUsrNo, ?_⟩
  · rw [getResource, stays, Option.bind_eq_bind, Option.bind_some]
    dsimp only
    rw [place, saveEle2Buf_live sound member (fits _ member)]
  · simp only [Function.update_self]
    rw [newerEle_eq (Nat.mod_lt _ (Nat.succ_pos _)), offset_mod, Nat.add_assoc]

end Place

theorem contents_getElem? {pool : ShPool} {offset : Nat} (inside : offset < pool.count) :
    pool.contents[offset]? =
      some (pool.packet (pool.eles ((pool.head + offset) % maxEle))) := by
  rw [contents, List.getElem?_map, live, ringList_getElem? _ _ _ _ _ inside, Option.map_some]

/-- Some calls of `MShmPoolGetResource` behind their `SemReq`, all of which succeed: the frames
they deliver, and the pool after them. -/
def getResources (userno buflen : Nat) : Nat → ShPool → Option (List Packet × ShPool)
  | 0, pool => some ([], pool)
  | calls + 1, pool =>
    match pool.getResource userno buflen with
    | some (.ok packet, after) =>
      (getResources userno buflen calls after).map fun rest => (packet :: rest.1, rest.2)
    | _ => none

/-- As many reads as elements are left deliver these elements, oldest first, and lead to the
tail. -/
theorem getResources_unread {pool : ShPool} (sound : pool.Sound) (room : pool.count < maxEle)
    {userno buflen left : Nat} (within : left ≤ pool.count)
    (place : (pool.users userno).curele = (pool.head + (pool.count - left)) % maxEle)
    (fits : ∀ ele ∈ pool.live, ele.datalen ≤ buflen) :
    ∃ after, getResources userno buflen left pool =
        some (pool.contents.drop (pool.count - left), after) ∧
      (after.users userno).curele = pool.tail := by
  induction left generalizing pool with
  | zero =>
    refine ⟨pool, ?_, ?_⟩
    · rw [Nat.sub_zero, List.drop_of_length_le (Nat.le_of_eq (contents_length pool))]
      rfl
    · rw [place, Nat.sub_zero, sound.tail]
  | succ left inductionHypothesis =>
    have inside : pool.count - (left + 1) < pool.count := by omega
    have next : pool.count - (left + 1) + 1 = pool.count - left := by omega
    obtain ⟨moved, step, same, curele⟩ := getResource_of_live sound room inside place fits
    rw [next] at curele
    obtain ⟨after, done, tail⟩ := @inductionHypothesis moved (same.sound sound)
      (by rwa [same.count]) (by rw [same.count]; omega) (by rw [same.head, same.count, curele])
      (by rwa [same.live])
    refine ⟨after, ?_, by rw [tail, same.tail]⟩
    have length : pool.count - (left + 1) < pool.contents.length := by
      rw [contents_length]
      exact inside
    have first : pool.contents[pool.count - (left + 1)] =
        pool.packet (pool.eles ((pool.head + (pool.count - (left + 1))) % maxEle)) :=
      (List.getElem?_eq_some_iff.mp (contents_getElem? inside)).2
    rw [getResources, step]
    dsimp only
    rw [done, Option.map_some, same.contents, same.count, List.drop_eq_getElem_cons length, next,
      first]

/-- So the elements left to read are the reads that deliver one. -/
theorem InWindow.getResources {pool : ShPool} {userno buflen : Nat} (window : pool.InWindow userno)
    (sound : pool.Sound) (room : pool.count < maxEle)
    (fits : ∀ ele ∈ pool.live, ele.datalen ≤ buflen) :
    ∃ after, ShPool.getResources userno buflen (pool.unread userno) pool =
        some (pool.contents.drop (pool.count - pool.unread userno), after) ∧
      (after.users userno).curele = pool.tail := by
  rcases window with tail | ⟨offset, inside, place⟩
  · have none : pool.unread userno = 0 := by
      rw [unread, tail, Nat.add_sub_cancel_left, Nat.mod_self]
    rw [none]
    refine getResources_unread sound room (Nat.zero_le _) ?_ fits
    rw [tail, Nat.sub_zero, sound.tail]
  · have left := unread_of_live sound room inside place
    refine getResources_unread sound room (by omega) ?_ fits
    rw [place, left, Nat.sub_sub_self (Nat.le_of_lt inside)]

end ShPool

namespace Net

/-! ### The sequence numbers -/

/-- The newest element has the number of the frames added, and the ones before it count down. -/
structure Numbered (net : Net) : Prop where
  num : net.pool.num = UInt32.ofNat net.sent.length
  few : net.pool.count ≤ net.sent.length
  eles : ∀ back ele, net.pool.live.reverse[back]? = some ele →
    ele.num = UInt32.ofNat (net.sent.length - back)

theorem Numbered.of_untouched {net next : Net} (numbered : net.Numbered)
    (same : ShPool.Untouched net.pool next.pool) (sent : next.sent = net.sent) :
    next.Numbered := by
  refine ⟨?_, ?_, ?_⟩
  · rw [same.num, sent]
    exact numbered.num
  · rw [same.count, sent]
    exact numbered.few
  · rw [same.live, sent]
    exact numbered.eles

/-- Elements that stay keep their numbers. -/
theorem Numbered.drop {net : Net} (numbered : net.Numbered) {released back : Nat} {ele : Ele}
    (found : (net.pool.live.drop released).reverse[back]? = some ele) :
    ele.num = UInt32.ofNat (net.sent.length - back) := by
  refine numbered.eles back ele ?_
  rw [List.reverse_drop, List.getElem?_take] at found
  split at found
  · exact found
  · cases found

theorem Numbered.add {net next : Net} {call : ShPool.Call} (numbered : net.Numbered)
    (sound : net.Sound) (taken : net.step (.add call) = some next) : next.Numbered := by
  rcases step_add sound.1 sound.2 taken with
    ⟨added, released, kept, _, _, _, rfl⟩ | ⟨freed, released, kept, _, _, _, _, rfl⟩
  · have length (packet : ShPool.Packet) : (net.sent ++ [packet]).length = net.sent.length + 1 :=
      List.length_append
    have newest : net.pool.num + 1 = UInt32.ofNat (net.sent.length + 1) := by
      rw [numbered.num, UInt32.ofNat_add]
      rfl
    refine ⟨?_, ?_, fun back ele found => ?_⟩
    · rw [length, ← newest]
      exact kept.num
    · have count := kept.count
      have few := numbered.few
      rw [length]
      show added.count ≤ _
      omega
    · have live : (added.semAddAll call.semVals).live = added.live := rfl
      rw [live, kept.live, List.reverse_append, List.reverse_singleton,
        List.singleton_append] at found
      rw [length]
      cases back with
      | zero =>
        cases found
        exact newest
      | succ back =>
        rw [Nat.add_sub_add_right]
        exact numbered.drop found
  · refine ⟨kept.num.trans numbered.num, ?_, fun back ele found => ?_⟩
    · have count := kept.count
      have few := numbered.few
      show freed.count ≤ net.sent.length
      omega
    · rw [kept.live] at found
      exact numbered.drop found

theorem Numbered.step {net next : Net} {label : Label} (numbered : net.Numbered)
    (sound : net.Sound) (taken : net.step label = some next) : next.Numbered := by
  cases label with
  | add call => exact numbered.add sound taken
  | semReq userno =>
    obtain ⟨_, rfl⟩ := step_semReq taken
    exact numbered.of_untouched (ShPool.Untouched.of_readers _ _ _ _) rfl
  | take userno buflen =>
    obtain ⟨_, result, after, found, rfl⟩ := step_take taken
    obtain ⟨_, _, same, _⟩ := ShPool.getResource_cases found
    exact numbered.of_untouched same rfl
  | mvUsrPlace userno place =>
    cases taken
    exact numbered.of_untouched (ShPool.mvUsrPlace_untouched _ _ _) rfl
  | reActiveUsr userno =>
    cases taken
    exact numbered.of_untouched (ShPool.reActiveUsr_untouched _ _) rfl
  | req =>
    rcases step_req taken with rfl | ⟨userno, _, _, _, rfl⟩
    · exact numbered
    · exact numbered.of_untouched (ShPool.Untouched.of_readers _ _ _ _) rfl

theorem created_numbered {pagesize : Nat} {bytes newmaxsem : Int} {net : Net}
    (begun : created pagesize bytes newmaxsem = .ok net) : net.Numbered := by
  unfold created ShPool.create at begun
  split at begun
  · cases begun
  · cases begun
    exact ⟨rfl, Nat.le_refl _, fun _ _ found => nomatch found⟩

theorem run_numbered {pagesize : Nat} {bytes newmaxsem : Int} {start net : Net}
    {labels : List Label} (begun : created pagesize bytes newmaxsem = .ok start)
    (run : Run start labels net) : net.Numbered := by
  refine (@Runs.invariant _ _ _ _ _ _ (fun net => net.Sound ∧ net.Numbered)
    ⟨created_sound begun, created_numbered begun⟩ ?_ run).2
  rintro before label after taken ⟨sound, numbered⟩
  exact ⟨step_sound sound taken, numbered.step sound taken⟩

/-- The number of a live element. -/
theorem Numbered.live {net : Net} (numbered : net.Numbered) {offset : Nat}
    (inside : offset < net.pool.count) :
    (net.pool.eles ((net.pool.head + offset) % maxEle)).num =
      UInt32.ofNat (net.sent.length - (net.pool.count - 1 - offset)) := by
  refine numbered.eles _ _ ?_
  rw [List.getElem?_reverse (by rw [ShPool.live_length]; omega), ShPool.live_length,
    Nat.sub_sub_self (by omega), ShPool.live, ringList_getElem? _ _ _ _ _ inside]

/-! ### What is returned -/

theorem toInt32_ofNat {value : Nat} (small : value < 2 ^ 31) :
    (UInt32.ofNat value).toInt32.toInt = value :=
  Int32.toInt_ofNat_of_lt small

/-- `MShmEleRemain` returns the number of elements that are left to read. -/
def RemainsRight (net : Net) (userno : Nat) : Prop :=
  (net.pool.eleRemain userno).toInt = net.pool.unread userno

/-- At a live element it returns one less. -/
theorem eleRemain_of_live {net : Net} (sound : net.Sound) (numbered : net.Numbered)
    (short : net.sent.length < 2 ^ 31) {userno offset : Nat} (inside : offset < net.pool.count)
    (place : (net.pool.users userno).curele = (net.pool.head + offset) % maxEle) :
    (net.pool.eleRemain userno).toInt + 1 = net.pool.unread userno := by
  have few := numbered.few
  have apart := ShPool.curele_ne_tail sound.1 sound.2 inside place
  have left := ShPool.unread_of_live sound.1 sound.2 inside place
  have own := @toInt32_ofNat (net.sent.length - (net.pool.count - 1 - offset)) (by omega)
  have newest := toInt32_ofNat short
  rw [← numbered.live inside] at own
  rw [← numbered.num] at newest
  have ordered : (net.pool.eles ((net.pool.head + offset) % maxEle)).num.toInt32 ≤
      net.pool.num.toInt32 := by
    rw [Int32.le_iff_toInt_le, own, newest]
    omega
  rw [ShPool.eleRemain, if_neg apart, place, if_pos ordered, Int32.toInt_sub, own, newest, left,
    Int.bmod_eq_of_le]
  all_goals omega

/-- For every run from the creation of a pool, and every reader that stands at a live element or
at the tail, as long as the sequence numbers have not wrapped: what `MShmEleRemain` returns is the
number of elements left to read if and only if none is left. -/
theorem remains_right_iff {pagesize : Nat} {bytes newmaxsem : Int} {start net : Net}
    {labels : List Label} (begun : created pagesize bytes newmaxsem = .ok start)
    (run : Run start labels net) (short : net.sent.length < 2 ^ 31) {userno : Nat}
    (window : net.pool.InWindow userno) :
    net.RemainsRight userno ↔ (net.pool.users userno).curele = net.pool.tail := by
  have sound := run_sound (created_sound begun) run
  have numbered := run_numbered begun run
  unfold RemainsRight
  rcases window with tail | ⟨offset, inside, place⟩
  · refine iff_of_true ?_ tail
    rw [ShPool.eleRemain, if_pos tail, ShPool.unread, tail, Nat.add_sub_cancel_left, Nat.mod_self]
    rfl
  · have missed := eleRemain_of_live sound numbered short inside place
    refine iff_of_false ?_ (ShPool.curele_ne_tail sound.1 sound.2 inside place)
    omega

/-- Of two frames one is read, and the reader is told that nothing remains; that is right when the
other one is read, too. -/
theorem remains_right_iff_two_frames :
    ∃ one both, Run onePage [.req, .add ⟨[1, 2, 3], 7, fun _ => 1⟩, .add ⟨[4, 5], 7, fun _ => 1⟩,
        .semReq firstReader, .take firstReader 16] one ∧
      Run onePage [.req, .add ⟨[1, 2, 3], 7, fun _ => 1⟩, .add ⟨[4, 5], 7, fun _ => 1⟩,
        .semReq firstReader, .take firstReader 16, .semReq firstReader, .take firstReader 16]
        both ∧
      ¬one.RemainsRight firstReader ∧ both.RemainsRight firstReader := by
  obtain ⟨one, firstRun, facts⟩ := @Runs.of_any Net Label onePage step
    [.req, .add ⟨[1, 2, 3], 7, fun _ => 1⟩, .add ⟨[4, 5], 7, fun _ => 1⟩, .semReq firstReader,
      .take firstReader 16]
    (fun net => decide (net.sent.length = 2 ∧ 1 < net.pool.count ∧
      (net.pool.users firstReader).curele = (net.pool.head + 1) % maxEle ∧
      (net.pool.users firstReader).curele ≠ net.pool.tail)) (by decide +kernel)
  obtain ⟨sent, inside, place, behind⟩ := of_decide_eq_true facts
  obtain ⟨both, secondRun, rest⟩ := @Runs.of_any Net Label onePage step
    [.req, .add ⟨[1, 2, 3], 7, fun _ => 1⟩, .add ⟨[4, 5], 7, fun _ => 1⟩, .semReq firstReader,
      .take firstReader 16, .semReq firstReader, .take firstReader 16]
    (fun net => decide (net.sent.length = 2 ∧
      (net.pool.users firstReader).curele = net.pool.tail)) (by decide +kernel)
  obtain ⟨all, tail⟩ := of_decide_eq_true rest
  refine ⟨one, both, firstRun, secondRun, fun right => ?_, ?_⟩
  · exact behind ((remains_right_iff created_onePage firstRun (by rw [sent]; decide)
      (Or.inr ⟨1, inside, place⟩)).mp right)
  · exact (remains_right_iff created_onePage secondRun (by rw [all]; decide) (Or.inl tail)).mpr tail

/-- A reader with its first frame to read: it is told that nothing remains. -/
theorem unread_frame_missed :
    ∃ net, created 4096 4096 (-1) = .ok onePage ∧
      Run onePage [.req, .add ⟨[1, 2, 3], 7, fun _ => 1⟩] net ∧ net.sent.length = 1 ∧
      net.pool.InWindow firstReader ∧ net.pool.eleRemain firstReader = 0 ∧
      ¬net.RemainsRight firstReader := by
  obtain ⟨net, run, facts⟩ := @Runs.of_any Net Label onePage step
    [.req, .add ⟨[1, 2, 3], 7, fun _ => 1⟩]
    (fun net => decide (net.sent.length = 1 ∧ 0 < net.pool.count ∧
      (net.pool.users firstReader).curele = (net.pool.head + 0) % maxEle ∧
      net.pool.eleRemain firstReader = 0 ∧ net.pool.unread firstReader = 1)) (by decide +kernel)
  obtain ⟨sent, some, place, returned, left⟩ := of_decide_eq_true facts
  refine ⟨net, created_onePage, run, sent, Or.inr ⟨0, some, place⟩, returned, ?_⟩
  rw [RemainsRight, returned, left]
  decide

end Net

end ExmOnvif.Pool
