/-
This file proves the representation invariant of the frame pool: the live elements,
oldest first, lie one behind the other around the block area, starting behind the
free blocks and ending in front of them.

Blocks are released in three ways, to make room for twice the need, to make room in
the ring of elements, and all of them before a request is refused; each of them is a
number of single releases at the head.
-/

import ExmOnvif.Pool.SharedPool

namespace ExmOnvif.Pool

open Library

namespace ShPool

/-- The live elements, oldest first. -/
def live (pool : ShPool) : List Ele := ringList pool.eles maxEle pool.head pool.count

/-- The invariant. Between an insertion and the release it may call for, the ring of elements
is full. -/
structure Sound (pool : ShPool) : Prop where
  head : pool.head < maxEle
  count : pool.count ≤ maxEle
  tail : pool.tail = (pool.head + pool.count) % maxEle
  start : pool.fbstart % pool.tblocks = pool.fbstart
  room : pool.fblocks + totalWidth Ele.blocks pool.live = pool.tblocks
  laid : LaidOut pool.tblocks Ele.bblock Ele.blocks (pool.fbstart + pool.fblocks) pool.live
  large : ∀ ele ∈ pool.live, ele.datalen ≤ ele.blocks * blockSize
  nonempty : ∀ ele ∈ pool.live, 0 < ele.blocks

theorem Sound.tail_lt {pool : ShPool} (sound : pool.Sound) : pool.tail < maxEle := by
  rw [sound.tail]
  exact Nat.mod_lt _ (Nat.succ_pos _)

theorem newerEle_eq {cur : Nat} (below : cur < maxEle) : newerEle cur = (cur + 1) % maxEle := by
  unfold newerEle maxEle at *
  split <;> omega

theorem newerEle_lt (cur : Nat) : newerEle cur < maxEle := by
  unfold newerEle maxEle
  split <;> omega

/-- A frame takes the blocks its bytes need, an empty one a single block. -/
theorem needBlock_eq (buflen : Nat) :
    needBlock buflen = if buflen = 0 then 1 else (buflen - 1) / blockSize + 1 := by
  cases buflen with
  | zero => rfl
  | succ less =>
    have whole : ((less + 1 : Nat) : Int) - 1 = less := by omega
    have rounded : (less : Int).tdiv blockSize = (less / blockSize : Nat) := rfl
    rw [needBlock, whole, rounded, if_neg (Nat.succ_ne_zero less), Nat.add_sub_cancel]
    rfl

theorem needBlock_pos (buflen : Nat) : 0 < needBlock buflen := by
  rw [needBlock_eq]
  split <;> exact Nat.succ_pos _

theorem le_needBlock (buflen : Nat) : buflen ≤ needBlock buflen * blockSize := by
  rw [needBlock_eq, blockSize]
  split <;> omega

theorem live_length (pool : ShPool) : pool.live.length = pool.count := ringList_length _ _ _ _

theorem create_sound {pagesize : Nat} {bytes newmaxsem : Int} {users : Nat → Usr}
    {sems : Nat → Nat} {pool : ShPool}
    (created : create pagesize bytes newmaxsem users sems = .ok pool) : pool.Sound := by
  unfold create at created
  split at created
  · cases created
  · cases created
    exact ⟨Nat.succ_pos _, Nat.zero_le _, rfl, Nat.zero_mod _, rfl, trivial,
      fun _ member => absurd member List.not_mem_nil,
      fun _ member => absurd member List.not_mem_nil⟩

theorem create_empty {pagesize : Nat} {bytes newmaxsem : Int} {users : Nat → Usr}
    {sems : Nat → Nat} {pool : ShPool}
    (created : create pagesize bytes newmaxsem users sems = .ok pool) : pool.count = 0 := by
  unfold create at created
  split at created
  · cases created
  · cases created
    rfl

/-! ### Releases -/

/-- Nothing but the oldest elements was changed. -/
structure Released (before after : ShPool) (released : Nat) : Prop where
  live : after.live = before.live.drop released
  tail : after.tail = before.tail
  tblocks : after.tblocks = before.tblocks
  fbstart : after.fbstart = before.fbstart
  num : after.num = before.num
  users : after.users = before.users
  sems : after.sems = before.sems
  eledata : after.eledata = before.eledata
  limit : after.limit = before.limit
  few : released ≤ before.count

theorem Released.refl (pool : ShPool) : Released pool pool 0 :=
  ⟨rfl, rfl, rfl, rfl, rfl, rfl, rfl, rfl, rfl, Nat.zero_le _⟩

theorem Released.count {before after : ShPool} {released : Nat}
    (kept : Released before after released) : after.count + released = before.count := by
  have length := congrArg List.length kept.live
  have few := kept.few
  rw [List.length_drop, live_length, live_length] at length
  omega

theorem Released.trans {first second third : ShPool} {some more : Nat}
    (left : Released first second some) (right : Released second third more) :
    Released first third (some + more) where
  live := by rw [right.live, left.live, List.drop_drop]
  tail := right.tail.trans left.tail
  tblocks := right.tblocks.trans left.tblocks
  fbstart := right.fbstart.trans left.fbstart
  num := right.num.trans left.num
  users := right.users.trans left.users
  sems := right.sems.trans left.sems
  eledata := right.eledata.trans left.eledata
  limit := right.limit.trans left.limit
  few := by
    have first := left.count
    have second := right.few
    omega

/-- The oldest element of a pool that is not empty. -/
theorem live_eq_cons {pool : ShPool} (sound : pool.Sound) {count : Nat}
    (size : pool.count = count + 1) :
    pool.live = pool.eles pool.head ::
      ringList pool.eles maxEle ((pool.head + 1) % maxEle) count := by
  rw [live, size, ringList_cons, Nat.mod_eq_of_lt sound.head]

/-- One release. -/
theorem freeHeadEle_released {pool : ShPool} (sound : pool.Sound) (some : pool.count ≠ 0) :
    Released pool pool.freeHeadEle 1 ∧ pool.freeHeadEle.Sound := by
  obtain ⟨count, size⟩ := Nat.exists_eq_succ_of_ne_zero some
  have bound := sound.count
  have whole := live_eq_cons sound size
  have rest : pool.freeHeadEle.live =
      ringList pool.eles maxEle ((pool.head + 1) % maxEle) count := by
    have cleared := ringList_tail pool.eles pool.head
      { pool.eles pool.head with datalen := 0, blocks := 0 } (show count < maxEle by omega)
    rw [Nat.mod_eq_of_lt sound.head] at cleared
    show ringList (Function.update _ _ _) maxEle (newerEle pool.head) (pool.count - 1) = _
    rw [newerEle_eq sound.head, size, Nat.succ_sub_one, cleared]
  have dropped : pool.freeHeadEle.live = pool.live.drop 1 := by rw [rest, whole, List.drop_one,
    List.tail_cons]
  have room := sound.room
  have laid := sound.laid
  have large := sound.large
  have nonempty := sound.nonempty
  rw [whole] at room laid large nonempty
  rw [totalWidth_cons] at room
  refine ⟨⟨dropped, rfl, rfl, rfl, rfl, rfl, rfl, rfl, rfl, Nat.pos_of_ne_zero some⟩,
    newerEle_lt _, ?_, ?_, sound.start, ?_, ?_, ?_, ?_⟩
  · show pool.count - 1 ≤ maxEle
    omega
  · show pool.tail = (newerEle pool.head + (pool.count - 1)) % maxEle
    rw [newerEle_eq sound.head, sound.tail, size, Nat.succ_sub_one, offset_mod, Nat.succ_eq_add_one,
      Nat.add_assoc, Nat.add_comm 1 count]
  · rw [rest]
    show pool.fblocks + (pool.eles pool.head).blocks + _ = pool.tblocks
    rw [Nat.add_assoc]
    exact room
  · rw [rest]
    show LaidOut pool.tblocks _ _ (pool.fbstart + (pool.fblocks + (pool.eles pool.head).blocks)) _
    rw [← Nat.add_assoc]
    exact laid.2
  · rw [rest]
    exact fun ele member => large ele (List.mem_cons_of_mem _ member)
  · rw [rest]
    exact fun ele member => nonempty ele (List.mem_cons_of_mem _ member)

/-- The blocks that are free once the `spare` oldest elements are released. -/
def freeWithout (pool : ShPool) (spare : Nat) : Nat :=
  pool.fblocks + totalWidth Ele.blocks (pool.live.take spare)

theorem freeWithout_zero (pool : ShPool) : pool.freeWithout 0 = pool.fblocks := rfl

theorem freeWithout_succ {pool : ShPool} (sound : pool.Sound) (some : pool.count ≠ 0)
    (spare : Nat) : pool.freeWithout (spare + 1) = pool.freeHeadEle.freeWithout spare := by
  obtain ⟨count, size⟩ := Nat.exists_eq_succ_of_ne_zero some
  have whole := live_eq_cons sound size
  have rest := (freeHeadEle_released sound some).1.live
  rw [whole, List.drop_one, List.tail_cons] at rest
  rw [freeWithout, freeWithout, whole, rest, List.take_succ_cons, totalWidth_cons, ← Nat.add_assoc]
  rfl

/-- `FreeBlocks` releases from the head until enough blocks are free or no element is left, and no
more than that. -/
theorem freeBlocks_released {needfree turns : Nat} {pool after : ShPool} {freed : Option Nat}
    (sound : pool.Sound) (size : pool.count = turns)
    (done : freeBlocks needfree turns pool.fblocks pool = (freed, after)) :
    ∃ released, Released pool after released ∧ after.Sound ∧
      (∀ spare, needfree ≤ pool.freeWithout spare → released ≤ spare) ∧
      ((freed = none ∧ after.count = 0 ∧ after.fblocks < needfree) ∨
        (freed = some after.fblocks ∧ needfree ≤ after.fblocks)) := by
  induction turns generalizing pool with
  | zero =>
    unfold freeBlocks at done
    split at done
    · rename_i short
      cases done
      exact ⟨0, Released.refl _, sound, fun _ _ => Nat.zero_le _, Or.inl ⟨rfl, size, short⟩⟩
    · rename_i enough
      cases done
      exact ⟨0, Released.refl _, sound, fun _ _ => Nat.zero_le _,
        Or.inr ⟨rfl, Nat.not_lt.mp enough⟩⟩
  | succ turns inductionHypothesis =>
    unfold freeBlocks at done
    split at done
    · obtain ⟨first, kept⟩ := freeHeadEle_released sound (by omega)
      have less : pool.freeHeadEle.count = turns := by
        show pool.count - 1 = turns
        omega
      obtain ⟨released, rest, restSound, least, result⟩ := inductionHypothesis kept less done
      refine ⟨1 + released, first.trans rest, restSound, fun spare enough => ?_, result⟩
      cases spare with
      | zero =>
        rw [freeWithout_zero] at enough
        omega
      | succ spare =>
        rw [freeWithout_succ sound (by omega)] at enough
        have fewer := least spare enough
        omega
    · rename_i enough
      cases done
      exact ⟨0, Released.refl _, sound, fun _ _ => Nat.zero_le _,
        Or.inr ⟨rfl, Nat.not_lt.mp enough⟩⟩

/-- More blocks are needed than all the elements can make room for. -/
def Refuses (pool : ShPool) (need : Nat) : Prop :=
  pool.fblocks ≤ need ∧ pool.tblocks < need * 2

/-- All `MShmPoolReqBlocks` can do: release some of the oldest elements and hand out free blocks,
of which one at least is left over, or release all elements and refuse. -/
theorem reqBlocks_cases {pool : ShPool} (sound : pool.Sound) {need : Nat} (some : 0 < need) :
    ∃ released freed, Released pool freed released ∧ freed.Sound ∧
      (∀ spare, need < pool.fblocks ∨ need * 2 ≤ pool.freeWithout spare → released ≤ spare) ∧
      ((need < freed.fblocks ∧ ¬pool.Refuses need ∧ pool.reqBlocks need =
          (.ok freed.fbstart, { freed with fbstart := (freed.fbstart + need) % freed.tblocks })) ∨
        (freed.count = 0 ∧ pool.Refuses need ∧
          pool.reqBlocks need = (.error .enomem, freed))) := by
  by_cases enough : need < pool.fblocks
  · refine ⟨0, pool, Released.refl pool, sound, fun _ _ => Nat.zero_le _,
      Or.inl ⟨enough, fun refuses => absurd enough (Nat.not_lt.mpr refuses.1), ?_⟩⟩
    rw [reqBlocks, if_pos enough]
    rfl
  · rcases done : freeBlocks (need * 2) pool.count pool.fblocks pool with ⟨result, after⟩
    obtain ⟨released, kept, afterSound, least, ⟨rfl, none, short⟩ | ⟨rfl, twice⟩⟩ :=
      freeBlocks_released sound rfl done
    all_goals
      have least : ∀ spare, need < pool.fblocks ∨ need * 2 ≤ pool.freeWithout spare →
          released ≤ spare := fun spare room => least spare (room.resolve_left enough)
    · refine ⟨released, after, kept, afterSound, least,
        Or.inr ⟨none, ⟨Nat.not_lt.mp enough, ?_⟩, ?_⟩⟩
      · have whole := afterSound.room
        rw [live, none, ringList_zero, totalWidth_nil, kept.tblocks] at whole
        omega
      · rw [reqBlocks, if_neg enough, done]
    · have within : after.fblocks ≤ pool.tblocks := by
        rw [← kept.tblocks, ← afterSound.room]
        exact Nat.le_add_right _ _
      refine ⟨released, after, kept, afterSound, least,
        Or.inl ⟨by omega, fun refuses => absurd refuses.2 (by omega), ?_⟩⟩
      have positive : 0 < after.fblocks := by omega
      rw [reqBlocks, if_neg enough, done]
      simp only [positive, if_true]
      rfl

/-! ### Insertions -/

/-- The element a frame gets. -/
def newEle (pool : ShPool) (buf : List UInt8) (flag : Int) : Ele where
  num := pool.num + 1
  userflag := flag
  datalen := buf.length
  blocks := needBlock buf.length
  bblock := pool.fbstart
  eblock :=
    if pool.tblocks ≤ pool.fbstart + needBlock buf.length then
      (pool.fbstart : Int) + needBlock buf.length - 1 - pool.tblocks
    else (pool.fbstart : Int) + needBlock buf.length - 1

/-- The pool with a frame behind its newest element, and the tail moved on. -/
def inserted (pool : ShPool) (buf : List UInt8) (flag : Int) : ShPool :=
  { pool with
    num := pool.num + 1
    fbstart := (pool.fbstart + needBlock buf.length) % pool.tblocks
    fblocks := pool.fblocks - needBlock buf.length
    count := pool.count + 1
    tail := newerEle pool.tail
    sendBytes := pool.sendBytes + UInt32.ofNat buf.length
    eles := Function.update pool.eles pool.tail (pool.newEle buf flag)
    eledata := splitStore pool.eledata (pool.tblocks * blockSize) (pool.fbstart * blockSize) buf }

/-- The oldest element released when the ring of elements is full. -/
def trimmed (pool : ShPool) : ShPool :=
  if pool.tail = pool.head then pool.freeHeadEle else pool

theorem insertData2Ele_fillEle (pool : ShPool) (buf : List UInt8) (flag : Int) :
    (let granted := { pool with fbstart := (pool.fbstart + needBlock buf.length) % pool.tblocks }
      let filled := granted.fillEle pool.fbstart (needBlock buf.length) flag
      (filled.insertData2Ele filled.tail buf).moveTail) = (pool.inserted buf flag).trimmed := by
  have same : (let granted := { pool with
        fbstart := (pool.fbstart + needBlock buf.length) % pool.tblocks }
      let filled := granted.fillEle pool.fbstart (needBlock buf.length) flag
      { filled.insertData2Ele filled.tail buf with tail := newerEle pool.tail }) =
        pool.inserted buf flag := by
    simp only [fillEle, insertData2Ele, inserted, newEle, Function.update_self,
      Function.update_idem]
  exact congrArg trimmed same

/-- A frame behind the newest element. -/
theorem live_inserted {pool : ShPool} (sound : pool.Sound) (below : pool.count < maxEle)
    (buf : List UInt8) (flag : Int) :
    (pool.inserted buf flag).live = pool.live ++ [pool.newEle buf flag] := by
  show ringList (Function.update pool.eles pool.tail _) maxEle pool.head (pool.count + 1) = _
  rw [sound.tail]
  exact ringList_append pool.eles _ below

theorem inserted_sound {pool : ShPool} (sound : pool.Sound) (below : pool.count < maxEle)
    {buf : List UInt8} (room : needBlock buf.length < pool.fblocks) (flag : Int) :
    (pool.inserted buf flag).Sound := by
  have whole := live_inserted sound below buf flag
  have turn : (pool.fbstart + pool.fblocks + totalWidth Ele.blocks pool.live) % pool.tblocks =
      pool.fbstart := by
    rw [Nat.add_assoc, sound.room, Nat.add_mod_right, sound.start]
  have sum := sound.room
  refine ⟨sound.head, below, ?_, Nat.mod_mod _ _, ?_, ?_, ?_, ?_⟩
  · show newerEle pool.tail = (pool.head + (pool.count + 1)) % maxEle
    rw [newerEle_eq sound.tail_lt, sound.tail, offset_mod, Nat.add_assoc]
  · rw [whole, totalWidth_append, totalWidth_cons, totalWidth_nil]
    show pool.fblocks - needBlock buf.length + (_ + (needBlock buf.length + 0)) = pool.tblocks
    omega
  · rw [whole]
    refine (sound.laid.append turn.symm).of_mod_eq ?_
    show ((pool.fbstart + needBlock buf.length) % pool.tblocks +
      (pool.fblocks - needBlock buf.length)) % pool.tblocks = _
    rw [offset_mod]
    congr 1
    omega
  · rw [whole]
    intro ele member
    rcases List.mem_append.mp member with old | new
    · exact sound.large ele old
    · rw [List.mem_singleton.mp new]
      exact le_needBlock buf.length
  · rw [whole]
    intro ele member
    rcases List.mem_append.mp member with old | new
    · exact sound.nonempty ele old
    · rw [List.mem_singleton.mp new]
      exact needBlock_pos buf.length

/-- The tail meets the head when the ring of elements is full, and only then. -/
theorem tail_eq_head_iff {pool : ShPool} (sound : pool.Sound) (some : pool.count ≠ 0) :
    pool.tail = pool.head ↔ pool.count = maxEle := by
  have head := sound.head
  have count := sound.count
  rw [sound.tail]
  constructor
  · intro meet
    by_contra less
    have apart : (pool.head + 0) % maxEle ≠ (pool.head + pool.count) % maxEle :=
      offset_ne (by omega) (by omega)
    rw [Nat.add_zero, Nat.mod_eq_of_lt head] at apart
    exact apart meet.symm
  · intro full
    rw [full, Nat.add_mod_right, Nat.mod_eq_of_lt head]

/-- After an insertion no more than one element is released, and the ring of elements is not
full. -/
theorem trimmed_released {pool : ShPool} (sound : pool.Sound) (some : pool.count ≠ 0) :
    ∃ released, Released pool pool.trimmed released ∧ pool.trimmed.Sound ∧
      pool.trimmed.count < maxEle ∧ released < pool.count ∧
      (pool.count ≤ pool.trimmed.count ∨ pool.trimmed.count + 1 = maxEle) := by
  have meet := tail_eq_head_iff sound some
  have count := sound.count
  unfold trimmed
  split
  · rename_i met
    obtain ⟨kept, keptSound⟩ := freeHeadEle_released sound some
    have full := meet.mp met
    refine ⟨1, kept, keptSound, ?_, ?_, Or.inr ?_⟩
    · show pool.count - 1 < maxEle
      omega
    · rw [full]
      decide
    · show pool.count - 1 + 1 = maxEle
      omega
  · rename_i apart
    have less : pool.count ≠ maxEle := fun full => apart (meet.mpr full)
    exact ⟨0, Released.refl pool, sound, by omega, Nat.pos_of_ne_zero some, Or.inl (Nat.le_refl _)⟩

/-! ### One call of the producer -/

/-- A frame was put behind the newest element, and some of the oldest were released. -/
structure Added (before after : ShPool) (buf : List UInt8) (flag : Int) (released : Nat) :
    Prop where
  live : after.live = before.live.drop released ++ [before.newEle buf flag]
  tail : after.tail = newerEle before.tail
  tblocks : after.tblocks = before.tblocks
  num : after.num = before.num + 1
  users : after.users = before.users
  sems : after.sems = before.sems
  eledata : after.eledata = splitStore before.eledata (before.tblocks * blockSize)
    (before.fbstart * blockSize) buf
  limit : after.limit = before.limit
  few : released ≤ before.count
  accepted : ¬before.Refuses (needBlock buf.length)
  room : needBlock buf.length < before.tblocks

theorem Added.count {before after : ShPool} {buf : List UInt8} {flag : Int} {released : Nat}
    (kept : Added before after buf flag released) : after.count + released = before.count + 1 := by
  have length := congrArg List.length kept.live
  have few := kept.few
  rw [List.length_append, List.length_drop, live_length, live_length,
    List.length_singleton] at length
  omega

/-- The insertion as a whole, behind the releases that made room for it. -/
theorem inserted_added {pool freed : ShPool} {made : Nat} (kept : Released pool freed made)
    (sound : freed.Sound) (below : freed.count < maxEle)
    {buf : List UInt8} (room : needBlock buf.length < freed.fblocks)
    (accepted : ¬pool.Refuses (needBlock buf.length)) (flag : Int) :
    ∃ released, Added pool (freed.inserted buf flag).trimmed buf flag released ∧
      (freed.inserted buf flag).trimmed.Sound ∧
      (freed.inserted buf flag).trimmed.count < maxEle ∧
      (freed.count < (freed.inserted buf flag).trimmed.count ∨
        (freed.inserted buf flag).trimmed.count + 1 = maxEle) := by
  have filled := inserted_sound sound below room flag
  obtain ⟨extra, trim, trimSound, under, small, least⟩ :=
    trimmed_released filled (Nat.succ_ne_zero freed.count)
  have same : freed.newEle buf flag = pool.newEle buf flag := by
    unfold newEle
    rw [kept.num, kept.tblocks, kept.fbstart]
  have left := kept.count
  have small : extra ≤ freed.count := Nat.le_of_lt_succ small
  refine ⟨made + extra, ⟨?_, ?_, ?_, ?_, ?_, ?_, ?_, ?_, by omega, accepted, ?_⟩, trimSound, under,
    least⟩
  · rw [trim.live, live_inserted sound below, List.drop_append_of_le_length, kept.live,
      List.drop_drop, same]
    rw [live_length]
    exact small
  · rw [trim.tail, ← kept.tail]
    rfl
  · rw [trim.tblocks, ← kept.tblocks]
    rfl
  · rw [trim.num, ← kept.num]
    rfl
  · rw [trim.users, ← kept.users]
    rfl
  · rw [trim.sems, ← kept.sems]
    rfl
  · rw [trim.eledata, ← kept.eledata, ← kept.tblocks, ← kept.fbstart]
    rfl
  · rw [trim.limit, ← kept.limit]
    rfl
  · have sum := sound.room
    rw [← kept.tblocks]
    omega

/-- The `unread` newest elements are not needed to make room for a frame. -/
def Spares (pool : ShPool) (unread need : Nat) : Prop :=
  unread + 1 < maxEle ∧
    (need < pool.fblocks ∨ need * 2 ≤ pool.freeWithout (pool.count - unread))

/-- All `MShmPoolAddResource` can do: add the frame and signal the users, or release all elements
and refuse. It releases no element it can do without. -/
theorem addResource_cases {pool : ShPool} (sound : pool.Sound) (below : pool.count < maxEle)
    (buf : List UInt8) (flag : Int) (semVals : Nat → Nat) :
    (∃ added released, Added pool added buf flag released ∧ added.Sound ∧ added.count < maxEle ∧
        (∀ unread ≤ pool.count, pool.Spares unread (needBlock buf.length) → unread < added.count) ∧
        pool.addResource buf flag semVals = (.ok (), added.semAddAll semVals)) ∨
      (∃ freed released, Released pool freed released ∧ freed.Sound ∧ freed.count = 0 ∧
        pool.Refuses (needBlock buf.length) ∧
        (∀ unread ≤ pool.count, pool.Spares unread (needBlock buf.length) → unread = 0) ∧
        pool.addResource buf flag semVals = (.error .enomem, freed)) := by
  obtain ⟨made, freed, kept, freedSound, least, ⟨room, accepted, granted⟩ |
      ⟨empty, refuses, refused⟩⟩ :=
    reqBlocks_cases sound (needBlock_pos buf.length)
  · have left := kept.count
    obtain ⟨released, added, addedSound, under, most⟩ :=
      inserted_added kept freedSound (by omega) room accepted flag
    refine Or.inl ⟨_, released, added, addedSound, under, fun unread within spares => ?_, ?_⟩
    · have fewer := least _ spares.2
      have ring := spares.1
      omega
    rw [addResource, granted]
    exact congrArg (fun moved => (Except.ok (), semAddAll moved semVals))
      (insertData2Ele_fillEle freed buf flag)
  · refine Or.inr ⟨freed, made, kept, freedSound, empty, refuses,
      fun unread within spares => ?_, ?_⟩
    · have fewer := least _ spares.2
      have left := kept.count
      omega
    · rw [addResource, refused]

/-- Signalling the users touches neither elements nor blocks. -/
theorem semAddAll_sound {pool : ShPool} (sound : pool.Sound) (semVals : Nat → Nat) :
    (pool.semAddAll semVals).Sound :=
  ⟨sound.head, sound.count, sound.tail, sound.start, sound.room, sound.laid, sound.large,
    sound.nonempty⟩

theorem addResource_sound {pool : ShPool} (sound : pool.Sound) (below : pool.count < maxEle)
    (buf : List UInt8) (flag : Int) (semVals : Nat → Nat) :
    (pool.addResource buf flag semVals).2.Sound ∧
      (pool.addResource buf flag semVals).2.count < maxEle := by
  rcases addResource_cases sound below buf flag semVals with
    ⟨added, released, _, addedSound, under, _, result⟩ | ⟨freed, released, _, freedSound, empty, _,
      _, result⟩
  · rw [result]
    exact ⟨semAddAll_sound addedSound semVals, under⟩
  · rw [result]
    exact ⟨freedSound, by rw [empty]; exact Nat.succ_pos _⟩

/-! ### Every sequence of calls -/

/-- The arguments of a call of `MShmPoolAddResource`, with what its semaphore reads return. -/
structure Call where
  buf : List UInt8
  flag : Int
  semVals : Nat → Nat

/-- The pool after some calls of `MShmPoolAddResource`. -/
def addAll (pool : ShPool) (calls : List Call) : ShPool :=
  calls.foldl (fun before call => (before.addResource call.buf call.flag call.semVals).2) pool

theorem addAll_sound {pool : ShPool} (sound : pool.Sound) (below : pool.count < maxEle)
    (calls : List Call) : (pool.addAll calls).Sound ∧ (pool.addAll calls).count < maxEle := by
  induction calls generalizing pool with
  | nil => exact ⟨sound, below⟩
  | cons call calls inductionHypothesis =>
    obtain ⟨kept, under⟩ := addResource_sound sound below call.buf call.flag call.semVals
    exact inductionHypothesis kept under

/-- What a pool looks like to a reader of its head: both rings agree with the counters. -/
structure WellLaid (pool : ShPool) : Prop where
  count : (pool.count : Int) = ((pool.tail : Int) - pool.head) % maxEle
  below : pool.count < maxEle
  indices : pool.head < maxEle ∧ pool.tail < maxEle
  room : pool.fblocks + (pool.live.map Ele.blocks).sum = pool.tblocks
  consecutive : pool.live.IsChain fun older newer =>
    newer.bblock = (older.bblock + older.blocks) % pool.tblocks
  disjoint : pool.live.Pairwise fun one other =>
    ArcsApart pool.tblocks one.bblock one.blocks other.bblock other.blocks
  youngest : ∀ ele, pool.live.getLast? = some ele →
    (ele.bblock + ele.blocks) % pool.tblocks = pool.fbstart
  oldest : ∀ ele, pool.live.head? = some ele →
    ele.bblock = (pool.fbstart + pool.fblocks) % pool.tblocks
  large : ∀ ele ∈ pool.live, ele.datalen ≤ ele.blocks * blockSize

theorem Sound.wellLaid {pool : ShPool} (sound : pool.Sound) (below : pool.count < maxEle) :
    pool.WellLaid where
  count := by
    have head := sound.head
    have tail := sound.tail
    unfold maxEle at *
    omega
  below := below
  indices := ⟨sound.head, sound.tail_lt⟩
  room := sound.room
  consecutive := sound.laid.isChain
  disjoint := sound.laid.pairwise (by
    have sum := sound.room
    omega)
  youngest := by
    intro ele newest
    rw [sound.laid.getLast newest, Nat.add_assoc, sound.room, Nat.add_mod_right, sound.start]
  oldest := by
    intro ele first
    have laid := sound.laid
    cases whole : pool.live with
    | nil =>
      rw [whole] at first
      cases first
    | cons head rest =>
      rw [whole] at first laid
      cases first
      exact laid.1
  large := sound.large

/-- From the creation of a pool of any size on, both rings agree with the counters after every
sequence of frames, accepted or refused. -/
theorem addAll_wellLaid {pagesize : Nat} {bytes newmaxsem : Int} {users : Nat → Usr}
    {sems : Nat → Nat} {pool : ShPool}
    (created : create pagesize bytes newmaxsem users sems = .ok pool) (calls : List Call) :
    (pool.addAll calls).WellLaid := by
  have sound := create_sound created
  have empty := create_empty created
  obtain ⟨kept, below⟩ := addAll_sound sound (by rw [empty]; exact Nat.succ_pos _) calls
  exact kept.wellLaid below

/-- A frame of three blocks. -/
def threeBlocks (semVal : Nat) : Call := ⟨List.replicate 1100 0, 7, fun _ => semVal⟩

/-- A page takes four frames of three blocks one after the other. The third one frees the first two
and goes around the end of the blocks. -/
theorem addAll_wellLaid_page :
    ∃ pool, create 4096 4096 (-1) (fun _ => ⟨false, 0⟩) (fun _ => 0) = .ok pool ∧
      (pool.addAll (List.replicate 4 (threeBlocks 0))).count = 2 ∧
      ((pool.addAll (List.replicate 4 (threeBlocks 0))).eles 2).bblock = 6 ∧
      (pool.addAll (List.replicate 4 (threeBlocks 0))).WellLaid :=
  ⟨_, rfl, by decide +kernel, by decide +kernel,
    @addAll_wellLaid 4096 4096 (-1) (fun _ => ⟨false, 0⟩) (fun _ => 0) _ rfl _⟩

end ShPool

end ExmOnvif.Pool
