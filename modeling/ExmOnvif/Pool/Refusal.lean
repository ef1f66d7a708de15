/-
This file is about frames that the pool refuses. `MShmPoolReqBlocks` asks for twice the blocks it
needs as soon as no more than these are free, and releases one element after the other before
it finds that it cannot have so many.

So a frame is refused that would fit, and the frames in the pool are lost with it. A refusal
costs nothing only where there was nothing to lose.
-/

import ExmOnvif.Pool.Delivery

namespace ExmOnvif.Pool

open Library

namespace ShPool

/-- What a refused call has to leave alone: the counters, the elements and their frames. -/
structure AsBefore (before after : ShPool) : Prop where
  head : after.head = before.head
  tail : after.tail = before.tail
  count : after.count = before.count
  fblocks : after.fblocks = before.fblocks
  fbstart : after.fbstart = before.fbstart
  num : after.num = before.num
  live : after.live = before.live
  contents : after.contents = before.contents

/-- A call that returns `-ENOMEM` leaves the pool as it was, and has a frame that needs more blocks
than there are. -/
def RefusalCostsNothing (pool : ShPool) (call : Call) : Prop :=
  (pool.addResource call.buf call.flag call.semVals).1 = .error .enomem →
    AsBefore pool (pool.addResource call.buf call.flag call.semVals).2 ∧
      pool.tblocks < needBlock call.buf.length

/-- A pool without elements has its head at its tail and all its blocks free. -/
theorem Sound.of_empty {pool : ShPool} (sound : pool.Sound) (empty : pool.count = 0) :
    pool.head = pool.tail ∧ pool.fblocks = pool.tblocks := by
  have tail := sound.tail
  have room := sound.room
  rw [empty, Nat.add_zero, Nat.mod_eq_of_lt sound.head] at tail
  rw [live, empty, ringList_zero, totalWidth_nil, Nat.add_zero] at room
  exact ⟨tail.symm, room⟩

theorem contents_eq_nil {pool : ShPool} (empty : pool.count = 0) : pool.contents = [] :=
  List.eq_nil_of_length_eq_zero ((contents_length pool).trans empty)

/-- A refusal empties the pool, and what is not of the elements stays. -/
theorem addResource_refused {pool : ShPool} (sound : pool.Sound) (below : pool.count < maxEle)
    {call : Call} (refuses : pool.Refuses (needBlock call.buf.length)) :
    ∃ freed, pool.addResource call.buf call.flag call.semVals = (.error .enomem, freed) ∧
      Released pool freed pool.count ∧ freed.count = 0 ∧ freed.Sound := by
  rcases addResource_cases sound below call.buf call.flag call.semVals with
    ⟨_, _, added, _⟩ | ⟨freed, released, kept, freedSound, empty, _, _, refused⟩
  · exact absurd refuses added.accepted
  · have all := kept.count
    rw [empty, Nat.zero_add] at all
    rw [all] at kept
    exact ⟨freed, refused, kept, empty, freedSound⟩

theorem addResource_accepted {pool : ShPool} (sound : pool.Sound) (below : pool.count < maxEle)
    {call : Call} (accepts : ¬pool.Refuses (needBlock call.buf.length)) :
    (pool.addResource call.buf call.flag call.semVals).1 = .ok () := by
  rcases addResource_cases sound below call.buf call.flag call.semVals with
    ⟨_, _, _, _, _, _, added⟩ | ⟨_, _, _, _, _, refuses, _⟩
  · rw [added]
  · exact absurd refuses accepts

/-- Where there was no element, none is lost. -/
theorem Released.asBefore {before after : ShPool} {released : Nat}
    (kept : Released before after released) (sound : before.Sound) (afterSound : after.Sound)
    (empty : before.count = 0) : AsBefore before after := by
  have none : released = 0 := Nat.le_zero.mp (kept.few.trans_eq empty)
  have count := kept.count
  rw [none, Nat.add_zero] at count
  have live := kept.live
  rw [none, List.drop_zero] at live
  obtain ⟨head, room⟩ := sound.of_empty empty
  obtain ⟨afterHead, afterRoom⟩ := afterSound.of_empty (count.trans empty)
  refine ⟨?_, kept.tail, count, ?_, kept.fbstart, kept.num, live, ?_⟩
  · rw [afterHead, head, kept.tail]
  · rw [afterRoom, room, kept.tblocks]
  · rw [contents_eq_nil (count.trans empty), contents_eq_nil empty]

/-- Exactly when a refusal costs nothing, in a sound pool. -/
theorem Sound.refusalCostsNothing_iff {pool : ShPool} (sound : pool.Sound)
    (below : pool.count < maxEle) (call : Call) :
    pool.RefusalCostsNothing call ↔ ¬pool.Refuses (needBlock call.buf.length) ∨
      (pool.count = 0 ∧ pool.tblocks < needBlock call.buf.length) := by
  unfold RefusalCostsNothing
  by_cases refuses : pool.Refuses (needBlock call.buf.length)
  · obtain ⟨freed, refused, kept, empty, freedSound⟩ := addResource_refused sound below refuses
    rw [refused, or_iff_right (not_not.mpr refuses)]
    constructor
    · intro costs
      obtain ⟨same, large⟩ := costs rfl
      exact ⟨same.count.symm.trans empty, large⟩
    · rintro ⟨none, large⟩ _
      exact ⟨kept.asBefore sound freedSound none, large⟩
  · rw [addResource_accepted sound below refuses]
    exact iff_of_true (fun faulty => nomatch faulty) (Or.inl refuses)

end ShPool

namespace Net

/-- For every state of the pool that the processes can reach, and every frame: a refusal costs
nothing if and only if there is none, because more blocks are free than needed or twice as many
are there at all, or the pool is empty and the frame larger than the pool. -/
theorem refusal_costs_nothing_iff {pagesize : Nat} {bytes newmaxsem : Int} {start net : Net}
    {labels : List Label} (begun : created pagesize bytes newmaxsem = .ok start)
    (run : Run start labels net) (call : ShPool.Call) :
    net.pool.RefusalCostsNothing call ↔
      ¬net.pool.Refuses (ShPool.needBlock call.buf.length) ∨
        (net.pool.count = 0 ∧ net.pool.tblocks < ShPool.needBlock call.buf.length) := by
  obtain ⟨sound, below⟩ := run_sound (created_sound begun) run
  exact sound.refusalCostsNothing_iff below call

/-- A frame of seven blocks. -/
def sevenBlocks : ShPool.Call := ⟨List.replicate 3584 0, 7, fun _ => 0⟩

theorem needBlock_sevenBlocks : ShPool.needBlock sevenBlocks.buf.length = 7 := by
  have length : sevenBlocks.buf.length = 3584 := List.length_replicate ..
  rw [length]
  decide

/-- A frame of nine blocks. -/
def nineBlocks : ShPool.Call := ⟨List.replicate 4608 0, 7, fun _ => 0⟩

theorem needBlock_nineBlocks : ShPool.needBlock nineBlocks.buf.length = 9 := by
  have length : nineBlocks.buf.length = 4608 := List.length_replicate ..
  rw [length]
  decide

/-- A pool of one page refuses nine blocks at no cost while it is empty, and takes seven. With a
frame in it, the refusal of nine blocks has its cost. -/
theorem refusal_costs_nothing_iff_one_page :
    ∃ net, Run onePage [.add ⟨[1, 2, 3], 7, fun _ => 0⟩] net ∧
      onePage.pool.RefusalCostsNothing nineBlocks ∧
      onePage.pool.RefusalCostsNothing sevenBlocks ∧
      ¬net.pool.RefusalCostsNothing nineBlocks := by
  obtain ⟨net, run, facts⟩ := @Runs.of_any Net Label onePage step
    [.add ⟨[1, 2, 3], 7, fun _ => 0⟩]
    (fun net => decide (net.pool.count = 1 ∧ net.pool.fblocks = 7 ∧ net.pool.tblocks = 8))
    (by decide +kernel)
  obtain ⟨count, free, total⟩ := of_decide_eq_true facts
  refine ⟨net, run, ?_, ?_, fun costs => ?_⟩
  · refine (refusal_costs_nothing_iff created_onePage .nil nineBlocks).mpr (Or.inr ⟨rfl, ?_⟩)
    rw [needBlock_nineBlocks]
    decide
  · refine (refusal_costs_nothing_iff created_onePage .nil sevenBlocks).mpr (Or.inl ?_)
    rw [ShPool.Refuses, needBlock_sevenBlocks]
    decide
  · have exactly := (refusal_costs_nothing_iff created_onePage run nineBlocks).mp costs
    rw [ShPool.Refuses, needBlock_nineBlocks, count, free, total] at exactly
    exact absurd exactly (by decide)

/-- Behind a frame of one block, one that needs the seven blocks that are free is refused, and the
first one is lost. -/
theorem refusal_empties_pool :
    ∃ net, created 4096 4096 (-1) = .ok onePage ∧
      Run onePage [.add ⟨[1, 2, 3], 7, fun _ => 0⟩] net ∧
      ¬net.pool.RefusalCostsNothing sevenBlocks := by
  obtain ⟨net, run, facts⟩ := @Runs.of_any Net Label onePage step
    [.add ⟨[1, 2, 3], 7, fun _ => 0⟩]
    (fun net => decide (net.pool.count = 1 ∧ net.pool.fblocks = 7 ∧ net.pool.tblocks = 8))
    (by decide +kernel)
  obtain ⟨count, free, total⟩ := of_decide_eq_true facts
  refine ⟨net, created_onePage, run, fun costs => ?_⟩
  obtain ⟨sound, below⟩ := run_sound (created_sound created_onePage) run
  rw [sound.refusalCostsNothing_iff below, ShPool.Refuses, needBlock_sevenBlocks, count, free,
    total] at costs
  exact absurd costs (by decide)

end Net

end ExmOnvif.Pool
