/-
This file proves what the pool is for: a reader that keeps up is given every frame
added since it attached, once, in order and unaltered.

The bytes of the live elements, oldest first, are a window on the frames that were
added. A reader that keeps up stands within that window, as many elements before its
end as its semaphore and its reads under way count, so the recovery for a reader that
stands behind a young ring never applies to it.
-/

import ExmOnvif.Pool.Readers

namespace ExmOnvif.Pool

open Library

namespace ShPool

/-! ### The frames in the pool -/

/-- The frame an element holds. -/
def packet (pool : ShPool) (ele : Ele) : Packet :=
  ⟨ringList pool.eledata (pool.tblocks * blockSize) (ele.bblock * blockSize) ele.datalen,
    ele.datalen, ele.num, ele.userflag⟩

/-- The frames in the pool, oldest first. -/
def contents (pool : ShPool) : List Packet := pool.live.map pool.packet

theorem contents_length (pool : ShPool) : pool.contents.length = pool.count := by
  rw [contents, List.length_map, live_length]

theorem Untouched.contents {before after : ShPool} (same : Untouched before after) :
    after.contents = before.contents := by
  have packets : after.packet = before.packet := by
    funext ele
    rw [packet, packet, same.eledata, same.tblocks]
  rw [ShPool.contents, ShPool.contents, same.live, packets]

/-- Where a live element lies. -/
theorem Sound.inside {pool : ShPool} (sound : pool.Sound) {ele : Ele} (member : ele ∈ pool.live) :
    ele.bblock < pool.tblocks ∧ ele.blocks ≤ pool.tblocks := by
  obtain ⟨offset, there, within⟩ := sound.laid.of_mem member
  have sum := sound.room
  have positive := sound.nonempty ele member
  refine ⟨?_, by omega⟩
  rw [there]
  exact Nat.mod_lt _ (by omega)

/-- The element a reader stands at that has `left` elements of the pool to read. -/
theorem curele_of_place {pool : ShPool} (sound : pool.Sound) {cur left : Nat}
    (below : cur < maxEle) (within : left ≤ pool.count)
    (place : (cur + left) % maxEle = pool.tail) :
    cur = (pool.head + (pool.count - left)) % maxEle := by
  rw [sound.tail] at place
  unfold maxEle at *
  omega

/-- The recovery for a reader behind a young ring does not apply to it. -/
theorem resetUsr_of_place {pool : ShPool} (sound : pool.Sound) (room : pool.count < maxEle)
    {userno left : Nat} (below : (pool.users userno).curele < maxEle) (pending : left ≠ 0)
    (within : left ≤ pool.count)
    (place : ((pool.users userno).curele + left) % maxEle = pool.tail) :
    pool.resetUsr userno = some pool := by
  unfold resetUsr
  refine if_neg ?_
  rintro ⟨head, _, behind⟩
  have cur := curele_of_place sound below within place
  have tail := sound.tail
  rw [head, Nat.zero_add, Nat.mod_eq_of_lt (by omega)] at cur
  rw [head, Nat.zero_add, Nat.mod_eq_of_lt room] at tail
  omega

/-- `SaveEle2Buf` copies out the frame of a live element. -/
theorem saveEle2Buf_live {pool : ShPool} (sound : pool.Sound) {eleno buflen : Nat}
    (member : pool.eles eleno ∈ pool.live) (fits : (pool.eles eleno).datalen ≤ buflen) :
    pool.saveEle2Buf buflen eleno = .ok (pool.packet (pool.eles eleno)) := by
  obtain ⟨start, width⟩ := sound.inside member
  have large := sound.large _ member
  have whole : (pool.eles eleno).blocks * blockSize ≤ pool.tblocks * blockSize :=
    Nat.mul_le_mul_right _ width
  simp only [saveEle2Buf]
  rw [if_neg (Nat.not_lt.mpr fits), splitLoad_eq (Nat.mul_lt_mul_of_pos_right start (by decide))
    (large.trans whole)]
  rfl

/-- An added frame is the newest one, and the frames that stay are not altered by it. -/
theorem Added.contents {before after : ShPool} {buf : List UInt8} {flag : Int} {released : Nat}
    (added : Added before after buf flag released) (sound : after.Sound) :
    after.contents = before.contents.drop released ++
      [⟨buf, buf.length, before.num + 1, flag⟩] := by
  have start : before.fbstart * blockSize < before.tblocks * blockSize := by
    have member : before.newEle buf flag ∈ after.live := by
      rw [added.live]
      exact List.mem_append_right _ (List.mem_singleton.mpr rfl)
    have inside := (sound.inside member).1
    rw [added.tblocks] at inside
    exact Nat.mul_lt_mul_of_pos_right inside (by decide)
  have apart := sound.laid.pairwise (by
    have sum := sound.room
    omega)
  rw [added.live] at apart
  rw [ShPool.contents, added.live, List.map_append, ShPool.contents, ← List.map_drop]
  congr 1
  · -- The stretch of the new frame is apart from those of the elements that stay.
    refine List.map_congr_left fun ele member => ?_
    have stretch := (List.pairwise_append.mp apart).2.2 ele member _ (List.mem_singleton.mpr rfl)
    have large := sound.large ele (by rw [added.live]; exact List.mem_append_left _ member)
    have bytes : ArcsApart (before.tblocks * blockSize) (ele.bblock * blockSize) ele.datalen
        (before.fbstart * blockSize) buf.length := by
      rw [added.tblocks] at stretch
      exact stretch.scale (by decide) large (le_needBlock _)
    rw [packet, packet, added.eledata, added.tblocks, ringList_splitStore_apart start bytes]
  · have fits : buf.length ≤ before.tblocks * blockSize :=
      (le_needBlock buf.length).trans (Nat.mul_le_mul_right _ (Nat.le_of_lt added.room))
    rw [List.map_singleton, packet, added.eledata, added.tblocks]
    exact congrArg (fun data => [(⟨data, buf.length, before.num + 1, flag⟩ : Packet)])
      (ringList_splitStore start fits)

end ShPool

namespace Net

/-! ### A reader that keeps up -/

/-- The reader has `unread` frames left to read, all of them still in the pool, and was given all
the others. -/
structure Following (net : Net) (userno : Fin maxUsers) (unread : Nat) : Prop where
  sound : net.Sound
  valid : (net.pool.users userno).valid = true
  signals : net.pool.sems userno + net.granted userno = unread
  within : unread ≤ net.pool.count
  below : (net.pool.users userno).curele < maxEle
  place : ((net.pool.users userno).curele + unread) % maxEle = net.pool.tail
  history : net.sent.length = net.since userno + (net.got userno).length + unread
  window : net.pool.contents.drop (net.pool.count - unread) =
    net.sent.drop (net.since userno + (net.got userno).length)
  given : net.got userno <+: net.sent.drop (net.since userno)

/-- Steps of others. -/
theorem Following.of_untouched {net next : Net} {userno : Fin maxUsers} {unread : Nat}
    (following : net.Following userno unread) (same : ShPool.Untouched net.pool next.pool)
    (usr : next.pool.users userno = net.pool.users userno)
    (signals : next.pool.sems userno + next.granted userno =
      net.pool.sems userno + net.granted userno)
    (sent : next.sent = net.sent) (since : next.since userno = net.since userno)
    (got : next.got userno = net.got userno) : next.Following userno unread where
  sound := following.sound.of_untouched same
  valid := by rw [usr]; exact following.valid
  signals := signals.trans following.signals
  within := by rw [same.count]; exact following.within
  below := by rw [usr]; exact following.below
  place := by rw [usr, same.tail]; exact following.place
  history := by rw [sent, since, got]; exact following.history
  window := by rw [same.contents, same.count, sent, since, got]; exact following.window
  given := by rw [sent, since, got]; exact following.given

/-- The frame the reader is given next. -/
theorem Following.next {net : Net} {userno : Fin maxUsers} {unread : Nat}
    (following : net.Following userno unread) (pending : unread ≠ 0) :
    ∃ ele ∈ net.pool.live, net.pool.eles (net.pool.users userno).curele = ele ∧
      net.sent[net.since userno + (net.got userno).length]? = some (net.pool.packet ele) := by
  have within := following.within
  have element := ringList_getElem? net.pool.eles maxEle net.pool.head net.pool.count
    (net.pool.count - unread) (by omega)
  have first := congrArg List.head? following.window
  have cur := ShPool.curele_of_place following.sound.1 following.below within following.place
  refine ⟨_, List.mem_of_getElem? element, by rw [cur], ?_⟩
  rw [List.head?_drop, List.head?_drop, ShPool.contents, List.getElem?_map] at first
  rw [← first]
  exact congrArg (Option.map net.pool.packet) element

/-! ### One step -/

/-- A prefix of what follows `start`, with the value behind it. -/
theorem prefix_concat {Value : Type} {values whole : List Value} {start : Nat} {value : Value}
    (given : values <+: whole.drop start) (position : whole[start + values.length]? = some value) :
    values ++ [value] <+: whole.drop start := by
  obtain ⟨rest, split⟩ := given
  rw [← List.getElem?_drop, ← split, List.getElem?_append_right (Nat.le_refl _), Nat.sub_self]
    at position
  cases rest with
  | nil => cases position
  | cons first rest =>
    cases position
    exact ⟨rest, by rw [← split, List.append_assoc, List.singleton_append]⟩

/-- The frames the reader has not been given yet are all in the pool, and it counts as valid. -/
def Spared (net : Net) (userno : Fin maxUsers) : Prop :=
  net.sent.length - net.since userno - (net.got userno).length ≤ net.pool.count ∧
    (net.pool.users userno).valid = true

/-- The producer neither frees a frame the reader has not read nor takes the reader to be gone,
the reader's buffer is as large as every frame, and its place is not moved. -/
def Fair (userno : Fin maxUsers) (net : Net) : Label → Prop
  | .add call => ∀ next ∈ net.step (.add call), next.Spared userno
  | .take other buflen => other = userno → ∀ packet ∈ net.sent, packet.length ≤ buflen
  | .mvUsrPlace other _ => other ≠ userno
  | _ => True

instance (net : Net) (userno : Fin maxUsers) : Decidable (net.Spared userno) :=
  inferInstanceAs (Decidable (_ ∧ _))

instance (userno : Fin maxUsers) (net : Net) : ∀ label, Decidable (Fair userno net label)
  | .add call => inferInstanceAs (Decidable (∀ next ∈ net.step (.add call), next.Spared userno))
  | .take other buflen =>
    inferInstanceAs (Decidable (other = userno → ∀ packet ∈ net.sent, packet.length ≤ buflen))
  | .mvUsrPlace other _ => inferInstanceAs (Decidable (other ≠ userno))
  | .semReq _ => isTrue trivial
  | .reActiveUsr _ => isTrue trivial
  | .req => isTrue trivial

/-- A frame was added, and the reader is signalled. -/
theorem Following.added {net : Net} {userno : Fin maxUsers} {unread released : Nat}
    {call : ShPool.Call} {added : ShPool} (following : net.Following userno unread)
    (kept : ShPool.Added net.pool added call.buf call.flag released) (addedSound : added.Sound)
    (room : unread + 1 ≤ added.count)
    (valid : ((added.semAddAll call.semVals).users userno).valid = true)
    (sound : Net.Sound { net with
      pool := added.semAddAll call.semVals
      sent := net.sent ++ [⟨call.buf, call.buf.length, net.pool.num + 1, call.flag⟩] }) :
    Net.Following { net with
      pool := added.semAddAll call.semVals
      sent := net.sent ++ [⟨call.buf, call.buf.length, net.pool.num + 1, call.flag⟩] }
      userno (unread + 1) := by
  have history := following.history
  have count := kept.count
  have few := kept.few
  have signalled : (added.semAddAll call.semVals).sems userno = net.pool.sems userno + 1 := by
    have wasValid : (added.users userno).valid = true := by rw [kept.users]; exact following.valid
    rcases ShPool.semAddAll_valid userno.isLt wasValid with more | ⟨_, gone⟩
    · rw [more, kept.sems]
    · rw [gone] at valid
      cases valid
  have curele : ((added.semAddAll call.semVals).users userno).curele =
      (net.pool.users userno).curele := by
    rw [ShPool.semAddAll_curele, kept.users]
  refine ⟨sound, valid, ?_, room, ?_, ?_, ?_, ?_, ?_⟩
  · have signals := following.signals
    show (added.semAddAll call.semVals).sems userno + net.granted userno = unread + 1
    omega
  · rw [curele]
    exact following.below
  · rw [curele]
    show _ = added.tail
    rw [kept.tail, ShPool.newerEle_eq following.sound.1.tail_lt, ← following.place, offset_mod,
      Nat.add_assoc]
  · rw [List.length_append, List.length_singleton, history]
    rfl
  · show added.contents.drop (added.count - (unread + 1)) =
      (net.sent ++ _).drop (net.since userno + (net.got userno).length)
    have rest : net.pool.count - unread = released + (added.count - (unread + 1)) := by omega
    rw [kept.contents addedSound, List.drop_append_of_le_length, List.drop_drop, ← rest,
      following.window, List.drop_append_of_le_length (by omega)]
    rw [List.length_drop, ShPool.contents_length]
    omega
  · show net.got userno <+: (net.sent ++ _).drop (net.since userno)
    rw [List.drop_append_of_le_length (by omega)]
    exact following.given.trans (List.prefix_append _ _)

/-- Everything was released, which the reader had read. -/
theorem Following.freed {net : Net} {userno : Fin maxUsers} {released : Nat} {freed : ShPool}
    (following : net.Following userno 0) (kept : ShPool.Released net.pool freed released)
    (empty : freed.count = 0) (valid : (freed.users userno).valid = true)
    (sound : Net.Sound { net with pool := freed }) :
    Net.Following { net with pool := freed } userno 0 := by
  have history := following.history
  refine ⟨sound, valid, ?_, Nat.zero_le _, ?_, ?_, history, ?_, following.given⟩
  · show freed.sems userno + net.granted userno = 0
    rw [kept.sems]
    exact following.signals
  · show (freed.users userno).curele < maxEle
    rw [kept.users]
    exact following.below
  · show ((freed.users userno).curele + 0) % maxEle = freed.tail
    rw [kept.users, kept.tail]
    exact following.place
  · show freed.contents.drop (freed.count - 0) =
      net.sent.drop (net.since userno + (net.got userno).length)
    have whole := freed.contents_length
    rw [List.drop_eq_nil_of_le (by omega), List.drop_eq_nil_of_le (by omega)]

theorem Following.add {net next : Net} {userno : Fin maxUsers} {unread : Nat} {call : ShPool.Call}
    (following : net.Following userno unread) (taken : net.step (.add call) = some next)
    (spared : next.Spared userno) : ∃ left, next.Following userno left := by
  have sound := step_sound following.sound taken
  have history := following.history
  obtain ⟨enough, valid⟩ := spared
  rcases step_add following.sound.1 following.sound.2 taken with
    ⟨added, released, kept, addedSound, under, _, rfl⟩
      | ⟨freed, released, kept, _, empty, _, _, rfl⟩
  · have room : unread + 1 ≤ added.count := by
      simp only [List.length_append, List.length_singleton] at enough
      have enough : net.sent.length + 1 - net.since userno - (net.got userno).length ≤
        added.count := enough
      omega
    exact ⟨unread + 1, following.added kept addedSound room valid sound⟩
  · have none : unread = 0 := by
      have enough : net.sent.length - net.since userno - (net.got userno).length ≤ freed.count :=
        enough
      omega
    subst none
    exact ⟨0, following.freed kept empty valid sound⟩

theorem Following.take {net next : Net} {userno : Fin maxUsers} {unread buflen : Nat}
    (following : net.Following userno unread)
    (taken : net.step (.take userno buflen) = some next)
    (fits : ∀ packet ∈ net.sent, packet.length ≤ buflen) :
    ∃ left, next.Following userno left := by
  have sound := step_sound following.sound taken
  obtain ⟨granted, result, after, found, rfl⟩ := step_take taken
  have signals := following.signals
  have pending : unread ≠ 0 := by omega
  obtain ⟨ele, member, place, position⟩ := following.next pending
  have length : ele.datalen ≤ buflen := fits _ (List.mem_of_getElem? position)
  obtain ⟨reset, same, untouched, sems, outcome⟩ := ShPool.getResource_cases found
  rw [ShPool.resetUsr_of_place following.sound.1 following.sound.2 following.below pending
    following.within following.place] at same
  cases same
  have saved := ShPool.saveEle2Buf_live following.sound.1
    (show net.pool.eles (net.pool.users userno).curele ∈ net.pool.live by rw [place]; exact member)
    (show _ ≤ buflen by rw [place]; exact length)
  rw [place] at saved
  rcases outcome with ⟨packet, rfl, copied, users⟩ | ⟨errno, rfl, refused, _⟩
  · rw [saved] at copied
    cases copied
    have history := following.history
    have within := following.within
    have usr : after.users userno =
        ⟨true, ((net.pool.users userno).curele + 1) % maxEle⟩ := by
      rw [users, Function.update_self, ← following.valid, ← ShPool.newerEle_eq following.below]
    have got : Function.update net.got userno (net.got userno ++ [net.pool.packet ele]) userno =
        net.got userno ++ [net.pool.packet ele] := Function.update_self _ _ _
    refine ⟨unread - 1, sound, ?_, ?_, ?_, ?_, ?_, ?_, ?_, ?_⟩
    · show (after.users userno).valid = true
      rw [usr]
    · show after.sems userno + Function.update net.granted userno _ userno = unread - 1
      rw [sems, Function.update_self]
      omega
    · show unread - 1 ≤ after.count
      rw [untouched.count]
      omega
    · show (after.users userno).curele < maxEle
      rw [usr]
      exact Nat.mod_lt _ (Nat.succ_pos _)
    · show ((after.users userno).curele + (unread - 1)) % maxEle = after.tail
      have turned : (net.pool.users userno).curele + 1 + (unread - 1) =
        (net.pool.users userno).curele + unread := by omega
      rw [usr, offset_mod, turned, following.place, untouched.tail]
    · show net.sent.length =
        net.since userno + (Function.update net.got userno _ userno).length + (unread - 1)
      rw [got, List.length_append, List.length_singleton, history]
      omega
    · show after.contents.drop (after.count - (unread - 1)) =
        net.sent.drop (net.since userno + (Function.update net.got userno _ userno).length)
      have shift : net.pool.count - (unread - 1) = net.pool.count - unread + 1 := by omega
      rw [got, untouched.contents, untouched.count, shift, List.length_append,
        List.length_singleton, ← Nat.add_assoc, ← List.drop_drop, following.window,
        List.drop_drop]
    · show Function.update net.got userno _ userno <+: net.sent.drop (net.since userno)
      rw [got]
      exact prefix_concat following.given position
  · rw [saved] at refused
    cases refused

/-- Every fair step keeps the reader following. -/
theorem Following.step {net next : Net} {userno : Fin maxUsers} {unread : Nat} {label : Label}
    (following : net.Following userno unread) (taken : net.step label = some next)
    (fair : Fair userno net label) : ∃ left, next.Following userno left := by
  by_cases foreign : net.Foreign userno label
  · have aside := step_foreign taken foreign
    exact ⟨unread, following.of_untouched aside.untouched aside.users
      (by rw [aside.sems, aside.granted]) aside.sent aside.since aside.got⟩
  · cases label with
    | add call => exact following.add taken (fair next taken)
    | semReq other =>
      obtain ⟨some, rfl⟩ := step_semReq taken
      exact ⟨unread, following.of_untouched (ShPool.Untouched.of_readers _ _ _ _) rfl
        (semReq_signals some userno) rfl rfl rfl⟩
    | take other buflen =>
      obtain rfl := not_not.mp foreign
      exact following.take taken (fair rfl)
    | mvUsrPlace other place => exact absurd fair foreign
    | reActiveUsr other =>
      cases taken
      obtain ⟨users, sems⟩ := ShPool.reActiveUsr_of_valid other following.valid
      exact ⟨unread, following.of_untouched (ShPool.reActiveUsr_untouched _ _) users
        (by rw [sems]) rfl rfl rfl⟩
    | req =>
      obtain ⟨_, _, free, _⟩ := step_req_own taken foreign
      rw [following.valid] at free
      cases free

/-- A valid reader's slot is not handed out again. -/
theorem step_since {net next : Net} {userno : Nat} {label : Label}
    (valid : (net.pool.users userno).valid = true) (taken : net.step label = some next) :
    next.since userno = net.since userno := by
  cases label with
  | add call =>
    simp only [Net.step] at taken
    split at taken <;> cases taken <;> rfl
  | semReq other =>
    obtain ⟨_, rfl⟩ := step_semReq taken
    rfl
  | take other buflen =>
    obtain ⟨_, _, _, _, rfl⟩ := step_take taken
    rfl
  | mvUsrPlace other place =>
    cases taken
    rfl
  | reActiveUsr other =>
    cases taken
    rfl
  | req =>
    rcases step_req taken with rfl | ⟨other, _, _, free, rfl⟩
    · rfl
    · refine Function.update_of_ne (fun equal => ?_) _ _
      rw [← equal, valid] at free
      cases free

/-! ### Delivery -/

/-- A reader that has just attached has nothing to read. -/
theorem attached_following {net next : Net} {userno : Fin maxUsers} {pool : ShPool}
    (sound : net.Sound) (idle : net.granted userno = 0)
    (attached : net.pool.req = .ok ((userno : Nat), pool)) (taken : net.step .req = some next) :
    next.Following userno 0 ∧ next.since userno = net.sent.length := by
  have kept := step_sound sound taken
  simp only [step, attached] at taken
  cases taken
  obtain ⟨_, rfl⟩ := ShPool.req_cases attached
  have tail := sound.1.tail_lt
  have since : Function.update net.since userno net.sent.length userno = net.sent.length :=
    Function.update_self _ _ _
  have got : Function.update net.got userno [] userno = [] := Function.update_self _ _ _
  refine ⟨⟨kept, ?_, ?_, Nat.zero_le _, ?_, ?_, ?_, ?_, ?_⟩, since⟩
  · show (Function.update net.pool.users userno _ userno).valid = true
    rw [Function.update_self]
  · show Function.update net.pool.sems userno 0 userno + net.granted userno = 0
    rw [Function.update_self, idle]
  · show (Function.update net.pool.users userno _ userno).curele < maxEle
    rw [Function.update_self]
    exact tail
  · show ((Function.update net.pool.users userno _ userno).curele + 0) % maxEle = net.pool.tail
    rw [Function.update_self]
    exact Nat.mod_eq_of_lt tail
  · show net.sent.length = Function.update net.since userno _ userno +
      (Function.update net.got userno [] userno).length + 0
    rw [since, got]
    rfl
  · show List.drop (net.pool.count - 0) _ = net.sent.drop
      (Function.update net.since userno _ userno +
        (Function.update net.got userno [] userno).length)
    rw [since, got, List.length_nil, Nat.add_zero, List.drop_length, Nat.sub_zero,
      List.drop_eq_nil_of_le]
    rw [ShPool.contents_length]
  · show Function.update net.got userno [] userno <+: _
    rw [got]
    exact List.nil_prefix

/-- The reader attached when `since` frames had been added, and follows. -/
def Served (userno : Fin maxUsers) (since : Nat) (net : Net) : Prop :=
  (∃ unread, net.Following userno unread) ∧ net.since userno = since

/-- From the moment a reader attaches, as long as the producer frees no frame the reader has not
read and does not take it to be gone, the frames it is given are those added since, from the first
on, with their bytes, lengths, sequence numbers and flags. -/
theorem delivered_prefix {pagesize : Nat} {bytes newmaxsem : Int} {start before after final : Net}
    {earlier later : List Label} {userno : Fin maxUsers} {pool : ShPool}
    (begun : created pagesize bytes newmaxsem = .ok start) (run : Run start earlier before)
    (idle : before.granted userno = 0) (attached : before.pool.req = .ok ((userno : Nat), pool))
    (taken : before.step .req = some after) (reads : RunIf (Fair userno) after later final) :
    final.got userno <+: final.sent.drop before.sent.length := by
  have sound := run_sound (created_sound begun) run
  obtain ⟨following, since⟩ := attached_following sound idle attached taken
  have kept : Served userno before.sent.length final := by
    refine reads.invariant ⟨⟨0, following⟩, since⟩ ?_
    rintro net label next ⟨moved, fair⟩ ⟨⟨unread, still⟩, same⟩
    exact ⟨still.step moved fair, (step_since still.valid moved).trans same⟩
  obtain ⟨⟨unread, still⟩, same⟩ := kept
  rw [← same]
  exact still.given

/-- Three frames are added and read, the last of them from both ends of the blocks. -/
theorem delivered_prefix_three_frames :
    ∃ final, RunIf (Fair firstReader) onePageRead
        [.add (ShPool.threeBlocks 1), .semReq firstReader, .take firstReader 2048,
          .add (ShPool.threeBlocks 1), .semReq firstReader, .take firstReader 2048,
          .add (ShPool.threeBlocks 1), .semReq firstReader, .take firstReader 2048] final ∧
      (final.got firstReader).map ShPool.Packet.length = [1100, 1100, 1100] ∧
      (final.pool.eles 2).bblock = 6 ∧ final.pool.tblocks = 8 ∧
      final.got firstReader <+: final.sent.drop onePage.sent.length := by
  obtain ⟨final, reads, facts⟩ := @Runs.of_any_guarded Net Label onePageRead step (Fair firstReader)
    _ [.add (ShPool.threeBlocks 1), .semReq firstReader, .take firstReader 2048,
      .add (ShPool.threeBlocks 1), .semReq firstReader, .take firstReader 2048,
      .add (ShPool.threeBlocks 1), .semReq firstReader, .take firstReader 2048]
    (fun final => decide ((final.got firstReader).map ShPool.Packet.length = [1100, 1100, 1100] ∧
      (final.pool.eles 2).bblock = 6 ∧ final.pool.tblocks = 8)) (by decide +kernel)
  obtain ⟨lengths, place, blocks⟩ := of_decide_eq_true facts
  exact ⟨final, reads, lengths, place, blocks,
    delivered_prefix created_onePage .nil rfl rfl step_onePage reads⟩

end Net

end ExmOnvif.Pool
