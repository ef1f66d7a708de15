/-
This file models the frame pool that the processes of the camera share: a head
with a ring of element descriptors and the pool's users, an area of 512-byte blocks
in which the frames lie around the end, and one counting semaphore a user.

The producer adds frames and makes room by dropping the oldest ones, whether they
have been read or not. A reader waits on its semaphore, takes the pool's lock and
copies out the element its own index stands at. Everything between lock and unlock
is one step here; the semaphore is waited on outside the lock and is a step of its
own.
-/

import ExmOnvif.Library.Circle

namespace ExmOnvif.Pool

open Library

/-! ### The pool -/

/-- `SHPOOL_BLOCK_SIZE`. -/
def blockSize : Nat := 512

/-- `SHPOOL_MAX_USERS`. -/
def maxUsers : Nat := 8

/-- `SHPOOL_MAX_ELE`. -/
def maxEle : Nat := 5000

/-- `SEMVMX`: the largest value of a semaphore. -/
def semvmx : Nat := 32767

/-- The error numbers the pool's functions return, negated. -/
inductive Errno where
  | einval
  | enomem
  | ebusy
  | erange
deriving DecidableEq, Repr

/-- `SHPOOL_ELE`. The sequence number wraps at 32 bits. -/
structure Ele where
  num : UInt32
  userflag : Int
  datalen : Nat
  blocks : Nat
  bblock : Nat
  eblock : Int
deriving DecidableEq, Repr

/-- An element cleared by `memset`. -/
def Ele.zero : Ele := ⟨0, 0, 0, 0, 0, 0⟩

/-- `SHPOOL_USR`, without what only describes the user. -/
structure Usr where
  valid : Bool
  curele : Nat
deriving DecidableEq, Repr

/-- `SHPOOL_HEAD` with the block area, the users' semaphores, and the two settings the
producer's process keeps. -/
structure ShPool where
  maxsem : Int
  num : UInt32
  tblocks : Nat
  fblocks : Nat
  fbstart : Nat
  count : Nat
  head : Nat
  tail : Nat
  lastUsrNo : Int
  sendBytes : UInt32
  eles : Nat → Ele
  users : Nat → Usr
  sems : Nat → Nat
  eledata : Memory
  newmaxsem : Int
  oldmaxsem : Int

namespace ShPool

/-- `MShmPoolCreate`, past the system calls, for a page size. The users and the semaphores are
those found in the shared memory; the loop over the semaphores clears the first one only. -/
def create (pagesize : Nat) (bytes newmaxsem : Int) (users : Nat → Usr) (sems : Nat → Nat) :
    Except Errno ShPool :=
  if bytes ≤ 0 then .error .einval
  else
    let tblocks := ((bytes.toNat - 1) / pagesize + 1) * pagesize / blockSize
    .ok
      { maxsem := 100
        num := 0
        tblocks := tblocks
        fblocks := tblocks
        fbstart := 0
        count := 0
        head := 0
        tail := 0
        lastUsrNo := -1
        sendBytes := 0
        eles := fun _ => Ele.zero
        users := users
        sems := Function.update sems 0 0
        eledata := fun _ => 0
        newmaxsem := newmaxsem
        oldmaxsem := 100 }

/-- `NewerEle`. -/
def newerEle (cur : Nat) : Nat := if maxEle ≤ cur + 1 then 0 else cur + 1

/-! ### Making room -/

/-- `FreeHeadEle`; the same statements are the body of the loop of `FreeBlocks`. -/
def freeHeadEle (pool : ShPool) : ShPool :=
  { pool with
    fblocks := pool.fblocks + (pool.eles pool.head).blocks
    count := pool.count - 1
    eles := Function.update pool.eles pool.head
      { pool.eles pool.head with datalen := 0, blocks := 0 }
    head := newerEle pool.head }

/-- The loop of `FreeBlocks`, on a pool of `turns` elements: the blocks that are free in the
end, or nothing when the pool was emptied in vain. -/
def freeBlocks (needfree : Nat) : Nat → Nat → ShPool → Option Nat × ShPool
  | turns, freecnt, pool =>
    if freecnt < needfree then
      match turns with
      | 0 => (none, pool)
      | turns + 1 =>
        freeBlocks needfree turns (freecnt + (pool.eles pool.head).blocks) pool.freeHeadEle
    else (some freecnt, pool)

/-- The free blocks handed out at the end of `MShmPoolReqBlocks`. -/
def grantBlocks (pool : ShPool) (need : Nat) : Nat × ShPool :=
  (pool.fbstart, { pool with fbstart := (pool.fbstart + need) % pool.tblocks })

/-- `MShmPoolReqBlocks`. Where no more than the needed blocks are free, twice as many are
freed. -/
def reqBlocks (pool : ShPool) (need : Nat) : Except Errno Nat × ShPool :=
  if need < pool.fblocks then (.ok (pool.grantBlocks need).1, (pool.grantBlocks need).2)
  else
    match freeBlocks (need * 2) pool.count pool.fblocks pool with
    | (some freed, after) =>
      if 0 < freed then (.ok (after.grantBlocks need).1, (after.grantBlocks need).2)
      else (.error .enomem, after)
    | (none, after) => (.error .enomem, after)

/-! ### Adding a frame -/

/-- `InsertData2Ele`, on element `eleno`. -/
def insertData2Ele (pool : ShPool) (eleno : Nat) (buf : List UInt8) : ShPool :=
  let ele := pool.eles eleno
  { pool with
    eledata := splitStore pool.eledata (pool.tblocks * blockSize) (ele.bblock * blockSize) buf
    eles := Function.update pool.eles eleno { ele with datalen := buf.length }
    count := pool.count + 1
    fblocks := pool.fblocks - ele.blocks
    sendBytes := pool.sendBytes + UInt32.ofNat buf.length }

/-- `SemAdd` on a semaphore that cannot go beyond `SEMVMX`. -/
def semAdd (value : Nat) : Except Errno Nat :=
  if value + 1 ≤ semvmx then .ok (value + 1) else .error .erange

/-- The body of the loop of `SemAddAll`, for one user, its semaphore, and what `SemGetVal` reads
of it: its reader may be taking from it meanwhile. -/
def semAddUsr (maxsem : Int) (usr : Usr) (sem semVal : Nat) : Usr × Nat :=
  if usr.valid then
    match semAdd sem with
    | .ok added => (⟨semVal ≤ maxsem, usr.curele⟩, added)
    | .error _ => (⟨false, usr.curele⟩, sem)
  else (usr, sem)

/-- The value `SemAddAll` gives to `maxsem`. -/
def limit (pool : ShPool) : Int :=
  if pool.newmaxsem ≠ -1 then pool.newmaxsem else pool.oldmaxsem

/-- `SemAddAll`: one more for every valid user; a user with more than `maxsem` unread elements
is taken to be gone. -/
def semAddAll (pool : ShPool) (semVals : Nat → Nat) : ShPool :=
  let added := fun userno =>
    semAddUsr pool.limit (pool.users userno) (pool.sems userno) (semVals userno)
  { pool with
    maxsem := pool.limit
    users := fun userno => if userno < maxUsers then (added userno).1 else pool.users userno
    sems := fun userno => if userno < maxUsers then (added userno).2 else pool.sems userno }

/-- The blocks of a frame. The division rounds towards zero, so an empty frame takes one. -/
def needBlock (buflen : Nat) : Nat := (((buflen : Int) - 1).tdiv blockSize + 1).toNat

/-- The element at the tail filled in by `MShmPoolAddResource`, up to its data. -/
def fillEle (pool : ShPool) (fstartb needblock : Nat) (flag : Int) : ShPool :=
  { pool with
    num := pool.num + 1
    eles := Function.update pool.eles pool.tail
      { pool.eles pool.tail with
        num := pool.num + 1
        userflag := flag
        bblock := fstartb
        blocks := needblock
        eblock :=
          if pool.tblocks ≤ fstartb + needblock then
            (fstartb : Int) + needblock - 1 - pool.tblocks
          else (fstartb : Int) + needblock - 1 } }

/-- The tail moved on, past the oldest element when the ring of elements is full. -/
def moveTail (pool : ShPool) : ShPool :=
  let moved := { pool with tail := newerEle pool.tail }
  if moved.tail = moved.head then moved.freeHeadEle else moved

/-- `MShmPoolAddResource`. -/
def addResource (pool : ShPool) (buf : List UInt8) (flag : Int) (semVals : Nat → Nat) :
    Except Errno Unit × ShPool :=
  match pool.reqBlocks (needBlock buf.length) with
  | (.ok fstartb, granted) =>
    let filled := granted.fillEle fstartb (needBlock buf.length) flag
    (.ok (), ((filled.insertData2Ele filled.tail buf).moveTail).semAddAll semVals)
  | (.error _, after) => (.error .enomem, after)

/-! ### Readers -/

/-- What a reader gets: the bytes, their number, the sequence number and the flag. -/
structure Packet where
  data : List UInt8
  length : Nat
  seq : UInt32
  flag : Int
deriving DecidableEq

/-- The numbers `GetAFreeUsrNo` tries, in its order, behind the last one handed out. -/
def usrNos (lastUsrNo : Nat) : List Nat :=
  (List.range maxUsers).drop (lastUsrNo + 1) ++ List.range (lastUsrNo + 1)

/-- `GetAFreeUsrNo`. -/
def getAFreeUsrNo (pool : ShPool) : Option Nat :=
  (usrNos pool.lastUsrNo.toNat).find? fun userno => !(pool.users userno).valid

/-- `MShmPoolReq`, past the attachment to the shared memory: the reader starts behind the newest
element, with nothing to wait for. -/
def req (pool : ShPool) : Except Errno (Nat × ShPool) :=
  match pool.getAFreeUsrNo with
  | none => .error .ebusy
  | some userno =>
    .ok (userno,
      { pool with
        lastUsrNo := userno
        sems := Function.update pool.sems userno 0
        users := Function.update pool.users userno ⟨true, pool.tail⟩ })

/-- `SemReq`: takes one from the reader's semaphore, or waits. -/
def semReq (pool : ShPool) (userno : Nat) : Option ShPool :=
  if pool.sems userno = 0 then none
  else some { pool with sems := Function.update pool.sems userno (pool.sems userno - 1) }

/-- `MShmDistanceEle`. -/
def distanceEle (pool : ShPool) (first second : Nat) : Int :=
  let dist := fun ele : Nat =>
    if pool.head ≤ ele then (ele : Int) - pool.head else (maxEle : Int) - ele + pool.head
  if first = second then 0 else dist second - dist first

/-- `SaveEle2Buf`. -/
def saveEle2Buf (pool : ShPool) (buflen eleno : Nat) : Except Errno Packet :=
  let ele := pool.eles eleno
  if buflen < ele.datalen then .error .enomem
  else
    .ok ⟨splitLoad pool.eledata (pool.tblocks * blockSize) (ele.bblock * blockSize) ele.datalen,
      ele.datalen, ele.num, ele.userflag⟩

/-- A reader found behind a young ring is put back on its newest element. With the tail at the
first element there is none, and the index leaves the array. -/
def resetUsr (pool : ShPool) (userno : Nat) : Option ShPool :=
  if pool.head = 0 ∧ (pool.distanceEle pool.head pool.tail).natAbs < 5 ∧
      pool.tail ≤ (pool.users userno).curele then
    if pool.tail = 0 then none
    else some
      { pool with
        users := Function.update pool.users userno
          { pool.users userno with curele := pool.tail - 1 }
        sems := Function.update pool.sems userno 0 }
  else some pool

/-- `MShmPoolGetResource` behind its `SemReq`, under the lock; `none` where it would leave the
array of elements. -/
def getResource (pool : ShPool) (userno buflen : Nat) :
    Option (Except Errno Packet × ShPool) := do
  let reset ← pool.resetUsr userno
  let cur := (reset.users userno).curele
  match reset.saveEle2Buf buflen cur with
  | .ok packet =>
    some (.ok packet,
      { reset with
        users := Function.update reset.users userno
          { reset.users userno with curele := newerEle cur } })
  | .error errno => some (.error errno, reset)

/-! ### Places and places lost -/

/-- `OlderEle`. -/
def olderEle (cur : Nat) : Nat := if cur = 0 then maxEle - 1 else cur - 1

/-- The loops of `MShmPoolMvUsrPlace`: how far the index came, and the index. The place to stop at
is looked for behind each step, not before the first one. -/
def movePlace (next : Nat → Nat) (stop : Nat) : Nat → Nat → Nat → Nat × Nat
  | 0, moved, temp => (moved, temp)
  | turns + 1, moved, temp =>
    if next temp = stop then (moved + 1, next temp)
    else movePlace next stop turns (moved + 1) (next temp)

/-- `MShmPoolMvUsrPlace`. The semaphore is left as it is. -/
def mvUsrPlace (pool : ShPool) (userno : Nat) (place : Int) : Nat × ShPool :=
  let moved :=
    if place < 0 then movePlace olderEle pool.head place.natAbs 0 (pool.users userno).curele
    else movePlace newerEle pool.tail place.natAbs 0 (pool.users userno).curele
  (moved.1,
    { pool with
      users := Function.update pool.users userno { pool.users userno with curele := moved.2 } })

/-- `MShmPoolReActiveUsr` of an attached reader: whether it had been deleted, and the pool. -/
def reActiveUsr (pool : ShPool) (userno : Nat) : Bool × ShPool :=
  if (pool.users userno).valid then (false, pool)
  else
    (true,
      { pool with
        users := Function.update pool.users userno { pool.users userno with valid := true } })

/-- `MShmPoolReqFree` of an attached reader. -/
def reqFree (pool : ShPool) (userno : Nat) : ShPool :=
  { pool with
    users := Function.update pool.users userno { pool.users userno with valid := false } }

end ShPool

end ExmOnvif.Pool
