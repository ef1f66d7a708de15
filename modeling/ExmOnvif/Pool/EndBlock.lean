/-
This file is about `eblock`, the last block of an element. The blocks lie around the end of the
area, and `MShmPoolAddResource` takes off a whole turn as soon as an element reaches the end.

An element whose last block is the last one of the area has not gone around yet, and is said to
end at block `-1`. Every other one is said to end where it does.
-/

import ExmOnvif.Pool.Invariant

namespace ExmOnvif.Pool

open Library

namespace ShPool

/-- An element ends in the pool, at the last of the blocks it takes from its first one on. -/
structure EndsInPool (tblocks : Nat) (ele : Ele) : Prop where
  nonneg : 0 ≤ ele.eblock
  below : ele.eblock < tblocks
  last : ele.eblock = ((ele.bblock + ele.blocks - 1 : Nat) : Int) % tblocks

/-- All live elements do. -/
def EndsKept (pool : ShPool) : Prop := ∀ ele ∈ pool.live, EndsInPool pool.tblocks ele

/-- The call is not refused, and its frame takes the blocks up to the end of the area. -/
def FillsUp (pool : ShPool) (call : Call) : Prop :=
  ¬pool.Refuses (needBlock call.buf.length) ∧
    pool.fbstart + needBlock call.buf.length = pool.tblocks

/-! ### One element -/

theorem Sound.fbstart_lt {pool : ShPool} (sound : pool.Sound) (some : 0 < pool.tblocks) :
    pool.fbstart < pool.tblocks := by
  rw [← sound.start]
  exact Nat.mod_lt _ some

/-- The turn is taken off too early for the element that ends with the area, and for no other. -/
theorem newEle_endsInPool_iff {pool : ShPool} (sound : pool.Sound) {buf : List UInt8}
    (room : needBlock buf.length < pool.tblocks) (flag : Int) :
    EndsInPool pool.tblocks (pool.newEle buf flag) ↔
      pool.fbstart + needBlock buf.length ≠ pool.tblocks := by
  have some : 0 < needBlock buf.length := needBlock_pos buf.length
  have start : pool.fbstart < pool.tblocks := sound.fbstart_lt (by omega)
  rcases lt_trichotomy
    (pool.fbstart + needBlock buf.length) pool.tblocks with inside | full | around
  · have eblock : (pool.newEle buf flag).eblock =
        (pool.fbstart : Int) + needBlock buf.length - 1 := if_neg (Nat.not_le.mpr inside)
    refine iff_of_true ⟨?_, ?_, ?_⟩ (Nat.ne_of_lt inside)
    · rw [eblock]
      omega
    · rw [eblock]
      omega
    · show _ = ((pool.fbstart + needBlock buf.length - 1 : Nat) : Int) % pool.tblocks
      rw [eblock, Int.emod_eq_of_lt (by omega) (by omega)]
      omega
  · have eblock : (pool.newEle buf flag).eblock =
        (pool.fbstart : Int) + needBlock buf.length - 1 - pool.tblocks :=
      if_pos (Nat.le_of_eq full.symm)
    refine iff_of_false (fun ends => ?_) (not_not.mpr full)
    have nonneg := ends.nonneg
    rw [eblock] at nonneg
    omega
  · have eblock : (pool.newEle buf flag).eblock =
        (pool.fbstart : Int) + needBlock buf.length - 1 - pool.tblocks :=
      if_pos (Nat.le_of_lt around)
    refine iff_of_true ⟨?_, ?_, ?_⟩ (Nat.ne_of_gt around)
    · rw [eblock]
      omega
    · rw [eblock]
      omega
    · show _ = ((pool.fbstart + needBlock buf.length - 1 : Nat) : Int) % pool.tblocks
      rw [eblock, ← Int.sub_emod_right, Int.emod_eq_of_lt (by omega) (by omega)]
      omega

/-! ### One call -/

theorem Released.endsKept {before after : ShPool} {released : Nat}
    (kept : Released before after released) (ends : before.EndsKept) : after.EndsKept := by
  intro ele member
  rw [kept.live] at member
  rw [kept.tblocks]
  exact ends ele (List.mem_of_mem_drop member)

/-- A call keeps the ends right exactly when its frame does not fill the area up. -/
theorem addResource_endsKept_iff {pool : ShPool} (sound : pool.Sound) (below : pool.count < maxEle)
    (ends : pool.EndsKept) (call : Call) :
    (pool.addResource call.buf call.flag call.semVals).2.EndsKept ↔ ¬pool.FillsUp call := by
  rcases addResource_cases sound below call.buf call.flag call.semVals with
    ⟨added, released, kept, _, _, _, result⟩ | ⟨freed, released, kept, _, _, refuses, _, result⟩
  · rw [result]
    have newest := newEle_endsInPool_iff sound kept.room call.flag
    constructor
    · rintro after ⟨_, full⟩
      refine newest.mp ?_ full
      rw [← kept.tblocks]
      refine after _ (show pool.newEle call.buf call.flag ∈ added.live from ?_)
      rw [kept.live]
      exact List.mem_append_right _ (List.mem_singleton_self _)
    · intro apart ele member
      have member : ele ∈ added.live := member
      show EndsInPool added.tblocks ele
      rw [kept.tblocks]
      rw [kept.live] at member
      rcases List.mem_append.mp member with old | new
      · exact ends ele (List.mem_of_mem_drop old)
      · rw [List.mem_singleton.mp new]
        exact newest.mpr fun full => apart ⟨kept.accepted, full⟩
  · rw [result]
    exact iff_of_true (kept.endsKept ends) fun fills => fills.1 refuses

/-! ### Every sequence of calls -/

theorem addAll_concat (pool : ShPool) (calls : List Call) (call : Call) :
    pool.addAll (calls ++ [call]) =
      ((pool.addAll calls).addResource call.buf call.flag call.semVals).2 :=
  List.foldl_append

/-- From a pool without elements on. -/
theorem Sound.endsKept_iff {pool : ShPool} (sound : pool.Sound) (empty : pool.count = 0)
    (calls : List Call) :
    (∀ taken, taken <+: calls → (pool.addAll taken).EndsKept) ↔
      ∀ taken call, taken ++ [call] <+: calls → ¬(pool.addAll taken).FillsUp call := by
  have kept := fun taken => addAll_sound sound (by rw [empty]; exact Nat.succ_pos _) taken
  constructor
  · intro ends taken call before
    rw [← addResource_endsKept_iff (kept taken).1 (kept taken).2
      (ends taken ((List.prefix_append taken [call]).trans before)), ← addAll_concat]
    exact ends _ before
  · intro apart taken
    -- the calls are taken back one by one, to the pool without elements
    induction taken using List.reverseRecOn with
    | nil =>
      rintro _ ele member
      have member : ele ∈ pool.live := member
      rw [List.eq_nil_of_length_eq_zero ((live_length pool).trans empty)] at member
      exact absurd member List.not_mem_nil
    | append_singleton taken call inductionHypothesis =>
      intro before
      have ends := inductionHypothesis ((List.prefix_append taken [call]).trans before)
      rw [addAll_concat, addResource_endsKept_iff (kept taken).1 (kept taken).2 ends]
      exact apart taken call before

/-- From the creation of a pool of any size on, every live element ends in the pool, where its
blocks do, after every call of a sequence, if and only if no frame of the sequence that is
accepted takes the blocks up to the end of the area. -/
theorem every_element_ends_in_pool_iff {pagesize : Nat} {bytes newmaxsem : Int}
    {users : Nat → Usr} {sems : Nat → Nat} {pool : ShPool}
    (created : create pagesize bytes newmaxsem users sems = .ok pool) (calls : List Call) :
    (∀ taken, taken <+: calls → (pool.addAll taken).EndsKept) ↔
      ∀ taken call, taken ++ [call] <+: calls → ¬(pool.addAll taken).FillsUp call :=
  (create_sound created).endsKept_iff (create_empty created) calls

/-- A frame of one byte. -/
def oneByte : Call := ⟨[1], 7, fun _ => 0⟩

/-- Three frames of one byte in a pool of one page. -/
theorem every_element_ends_in_pool_iff_one_page :
    ∃ pool, create 4096 4096 (-1) (fun _ => ⟨false, 0⟩) (fun _ => 0) = .ok pool ∧
      ((∀ taken, taken <+: List.replicate 3 oneByte → (pool.addAll taken).EndsKept) ↔
        ∀ taken call, taken ++ [call] <+: List.replicate 3 oneByte →
          ¬(pool.addAll taken).FillsUp call) :=
  ⟨_, rfl, @every_element_ends_in_pool_iff 4096 4096 (-1) (fun _ => ⟨false, 0⟩) (fun _ => 0) _ rfl
    _⟩

/-- The eighth one takes the last block of the page, and is said to end in front of the first. -/
theorem eighth_element_ends_outside :
    ∃ pool, create 4096 4096 (-1) (fun _ => ⟨false, 0⟩) (fun _ => 0) = .ok pool ∧
      ∃ ele ∈ (pool.addAll (List.replicate 8 oneByte)).live,
        ele.bblock + ele.blocks = pool.tblocks ∧ ele.eblock = -1 ∧
          ¬(pool.addAll (List.replicate 8 oneByte)).EndsKept := by
  have last : ∀ pool, create 4096 4096 (-1) (fun _ => ⟨false, 0⟩) (fun _ => 0) = .ok pool →
      (pool.addAll (List.replicate 8 oneByte)).live.any (fun ele =>
        decide (ele.bblock + ele.blocks = pool.tblocks ∧ ele.eblock = -1)) = true := by
    intro pool created
    obtain rfl := Except.ok.inj created
    decide +kernel
  refine ⟨_, rfl, ?_⟩
  obtain ⟨ele, member, facts⟩ := List.any_eq_true.mp (last _ rfl)
  obtain ⟨full, eblock⟩ := of_decide_eq_true facts
  refine ⟨ele, member, full, eblock, fun ends => ?_⟩
  have nonneg := (ends ele member).nonneg
  rw [eblock] at nonneg
  exact absurd nonneg (by decide)

end ShPool

end ExmOnvif.Pool
