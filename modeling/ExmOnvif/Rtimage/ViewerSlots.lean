/-
This file models the steps of the threads of the slots and of the calls by which the
platform has the device connect, in any order, and settles when a slot is never given to
two connections.

A thread tests the flag of its slot, takes the lock of the listening socket, sets the flag
and accepts; from the initialisation of the accepted connection to its deletion the flag is
clear again. A call of the platform takes the first slot whose flag is clear, without a
lock, and sets the flag two steps later. A slot can so be taken twice while a thread is
between its test and the flag, while it serves, or while another call is between its choice
and the flag.
-/

import ExmOnvif.Rtimage.Viewers

namespace ExmOnvif.Rtimage

open Library

/-! ### The steps -/

/-- Where the thread of a slot stands. -/
inductive Phase where
  /-- In the loop that waits until the slot is not used. -/
  | waiting
  | tested
  /-- It has `l_mutex`. -/
  | locked
  /-- It has set `used` and is in `accept`. -/
  | accepting
  | accepted (guest : Addr) (fd : Nat)
  /-- The slot has been initialised. -/
  | cleared (guest : Addr) (fd : Nat)
  /-- The viewer has been added. -/
  | listed (fd : Nat)
  | serving (fd : Nat)
deriving DecidableEq, Repr

/-- Where a call of `rtnet_av_connect2gate` stands. -/
inductive GatePhase where
  | idle
  /-- `get_free_usr` has returned the slot. -/
  | picked (slot : Nat) (request : Request)
  | cleared (slot : Nat) (request : Request)
  /-- It has set `used`. -/
  | marked (slot : Nat) (request : Request)
  | listed (slot : Nat) (request : Request)
  | connected (slot : Nat) (request : Request)
  | sent (slot : Nat) (request : Request)
  /-- The call has returned, and the connection is open. -/
  | opened (slot : Nat)

/-- The thread has a connection. -/
def Phase.connection : Phase → Bool
  | .accepted _ _ | .cleared _ _ | .listed _ | .serving _ => true
  | _ => false

/-- The thread has found its slot unused or serves on it, while the flag is clear. -/
def Phase.unmarked : Phase → Bool
  | .tested | .locked | .cleared _ _ | .listed _ | .serving _ => true
  | _ => false

/-- The call has taken the slot and not yet set the flag. -/
def GatePhase.unmarked (slot : Nat) : GatePhase → Prop
  | .picked taken _ | .cleared taken _ => taken = slot
  | _ => False

/-- The call has set the flag of the slot. -/
def GatePhase.marks (slot : Nat) : GatePhase → Prop
  | .marked taken _ | .listed taken _ | .connected taken _ | .sent taken _ | .opened taken =>
    taken = slot
  | _ => False

/-- The call has a connection on the slot. -/
def GatePhase.connection (slot : Nat) : GatePhase → Prop
  | .connected taken _ | .sent taken _ | .opened taken => taken = slot
  | _ => False

instance (slot : Nat) (phase : GatePhase) : Decidable (phase.connection slot) :=
  match phase with
  | .connected taken _ | .sent taken _ | .opened taken => inferInstanceAs (Decidable (taken = slot))
  | .idle | .picked _ _ | .cleared _ _ | .marked _ _ | .listed _ _ =>
    inferInstanceAs (Decidable False)

/-- The slot that the call has taken. -/
def GatePhase.slot : GatePhase → Option Nat
  | .idle => none
  | .picked slot _ | .cleared slot _ | .marked slot _ | .listed slot _ | .connected slot _
  | .sent slot _ | .opened slot => some slot

/-- The slots, the lock of the listening socket, and the threads and calls. -/
structure Slots where
  server : Server
  lMutex : Option Nat
  thread : Nat → Phase
  gate : Nat → GatePhase

/-- A step of the thread of a slot or of a call. -/
inductive Move where
  | test (slot : Nat)
  | lock (slot : Nat)
  | mark (slot : Nat)
  | accept (slot : Nat) (guest : Addr) (fd : Nat)
  | acceptError (slot : Nat)
  | init (slot : Nat)
  | add (slot : Nat)
  | serve (slot : Nat)
  | del (slot : Nat)
  | pick (call : Nat) (request : Request)
  | clearGate (call : Nat)
  | markGate (call : Nat)
  | addGate (call : Nat)
  | connectGate (call : Nat) (fd : Int)
  | sendGate (call : Nat) (sent : Bool)
  | settleGate (call : Nat) (outcome : Outcome)
  /-- `rtnet_av_close_connect`. -/
  | close (slot : Nat)

namespace Slots

variable (net : Net)

def start : Slots := ⟨.start, none, fun _ => .waiting, fun _ => .idle⟩

/-- The thread of a slot goes on to a phase, with what it does to its slot. -/
def goThread (state : Slots) (slot : Nat) (phase : Phase) (server : Server) : Slots :=
  { state with server := server, thread := Function.update state.thread slot phase }

def goGate (state : Slots) (call : Nat) (phase : GatePhase) (server : Server) : Slots :=
  { state with server := server, gate := Function.update state.gate call phase }

/-- A write to the slot under its lock. -/
def write (state : Slots) (slot : Nat) (usr : Usr) : Option Server :=
  if (state.server.usr slot).uMutex then none else some (state.server.setUsr slot usr)

/-- The steps of the thread of a slot. -/
def threadStep (state : Slots) (slot : Nat) (move : Move) : Option Slots :=
  match move, state.thread slot with
  | .test _, .waiting =>
    if 0 < (state.server.usr slot).used then some state
    else some (state.goThread slot .tested state.server)
  | .lock _, .tested =>
    if state.lMutex = none then
      some { state.goThread slot .locked state.server with lMutex := some slot }
    else some (state.goThread slot .waiting state.server)
  | .mark _, .locked =>
    (state.write slot { state.server.usr slot with used := 1 }).map (state.goThread slot .accepting)
  | .accept _ guest fd, .accepting =>
    some (state.goThread slot (.accepted guest fd) state.server)
  | .acceptError _, .accepting =>
    some { state.goThread slot .waiting state.server with lMutex := none }
  | .init _, .accepted guest fd =>
    some (state.goThread slot (.cleared guest fd)
      (state.server.setUsr slot (initAvUsrInfo (state.server.usr slot))))
  | .add _, .cleared guest fd =>
    let added := state.server.addAvUsrList net slot guest
    some { state.goThread slot (if added.2 ≠ 0 then .waiting else .listed fd) added.1 with
      lMutex := none }
  | .serve _, .listed fd =>
    some (state.goThread slot (.serving fd)
      (state.server.setUsr slot { state.server.usr slot with fd := fd }))
  | .del _, .serving _ =>
    (state.server.delAvUsrList net slot).map (state.goThread slot .waiting)
  | _, _ => none

/-- The steps of a call of `rtnet_av_connect2gate`. -/
def gateStep (state : Slots) (call : Nat) (move : Move) : Option Slots :=
  match move, state.gate call with
  | .pick _ request, .idle =>
    match state.server.getFreeUsr net with
    | none => some state
    | some slot => some (state.goGate call (.picked slot request) state.server)
  | .clearGate _, .picked slot request =>
    some (state.goGate call (.cleared slot request)
      (state.server.setUsr slot (initAvUsrInfo (state.server.usr slot))))
  | .markGate _, .cleared slot request =>
    (state.write slot { state.server.usr slot with used := 1 }).map
      (state.goGate call (.marked slot request))
  | .addGate _, .marked slot request =>
    let added := state.server.addAvUsrList net slot request.remoteip
    some (state.goGate call (if added.2 ≠ 0 then .idle else .listed slot request) added.1)
  | .connectGate _ fd, .listed slot request =>
    if fd < 0 then some (state.goGate call .idle state.server)
    else (state.write slot { state.server.usr slot with fd := fd }).map
      (state.goGate call (.connected slot request))
  | .sendGate _ sent, .connected slot request =>
    if sent then some (state.goGate call (.sent slot request) state.server)
    else (state.server.delAvUsrList net slot).map (state.goGate call .idle)
  | .settleGate _ outcome, .sent slot request =>
    let usr : Usr :=
      { state.server.usr slot with vencNo := request.channel, streamIdx := request.streamIdx }
    -- With the encoder not working the call returns with the lock held.
    (state.write slot (if usr.servStat ≠ 1 ∧ usr.servStat ≠ 3 ∧ outcome.encOk = false then
      { usr with uMutex := true } else usr.serve request outcome)).map
        (state.goGate call (.opened slot))
  | _, _ => none

/-- `rtnet_av_close_connect`: the calls whose connection it was are over. -/
def closeStep (state : Slots) (slot : Nat) : Option Slots :=
  (state.server.delAvUsrList net slot).map fun server =>
    { state with
      server := server
      gate := fun call => match state.gate call with
        | .opened taken => if taken = slot then .idle else .opened taken
        | phase => phase }

def step (state : Slots) (move : Move) : Option Slots :=
  match move with
  | .test slot | .lock slot | .mark slot | .accept slot _ _ | .acceptError slot | .init slot
  | .add slot | .serve slot | .del slot =>
    if slot < net.total then state.threadStep net slot move else none
  | .pick call _ | .clearGate call | .markGate call | .addGate call | .connectGate call _
  | .sendGate call _ | .settleGate call _ => state.gateStep net call move
  | .close slot => if slot < net.total then state.closeStep net slot else none

end Slots

/-! ### When a slot is never given twice -/

/-- Somebody has the slot while its flag is clear: its thread, from its test to the flag or from
the initialisation of an accepted connection on, or a call that is about to mark it. -/
def Slots.Taken (state : Slots) (slot : Nat) : Prop :=
  (state.thread slot).unmarked = true ∨ ∃ call, (state.gate call).unmarked slot

/-- Nobody has the slot. -/
structure Slots.Idle (state : Slots) (slot : Nat) : Prop where
  used : (state.server.usr slot).used = 0
  thread : state.thread slot = .waiting
  gate : ∀ call, (state.gate call).slot ≠ some slot

/-- The steps that do not meet a slot taken without its flag: when the platform has the device
connect, there is an idle slot in front of every slot that is taken with a clear flag; a thread
finds its slot unused only when no call is about to mark it; and what is closed is a connection of
the platform. -/
def Slots.Orderly (net : Net) (state : Slots) : Move → Prop
  | .pick _ _ => ∀ slot < net.total, state.Taken slot → ∃ idle < slot, state.Idle idle
  | .test slot => (state.server.usr slot).used = 0 → ∀ call, ¬ (state.gate call).unmarked slot
  | .close slot => ∃ call, state.gate call = .opened slot
  | _ => True

/-- The slot has a connection. -/
def Slots.Serving (state : Slots) (slot : Nat) : Prop :=
  (state.thread slot).connection = true ∨ ∃ call, (state.gate call).connection slot

/-- The thread has set the flag of its slot. -/
def Phase.marks : Phase → Bool
  | .accepting | .accepted _ _ => true
  | _ => false

/-- The call has taken the slot. -/
def GatePhase.Holds (slot : Nat) (phase : GatePhase) : Prop :=
  phase.unmarked slot ∨ phase.marks slot

theorem GatePhase.holds_iff {slot : Nat} {phase : GatePhase} :
    phase.Holds slot ↔ phase.slot = some slot := by
  cases phase <;> simp [GatePhase.Holds, GatePhase.unmarked, GatePhase.marks, GatePhase.slot]

theorem GatePhase.holds_of_connection {slot : Nat} {phase : GatePhase}
    (connection : phase.connection slot) : phase.Holds slot := by
  cases phase with
  | connected taken request => exact Or.inr connection
  | sent taken request => exact Or.inr connection
  | opened taken => exact Or.inr connection
  | idle => exact connection.elim
  | picked taken request => exact connection.elim
  | cleared taken request => exact connection.elim
  | marked taken request => exact connection.elim
  | listed taken request => exact connection.elim

/-- A slot is held by its thread or by one call, and its flag is set from the mark on. -/
structure Slots.Exclusive (state : Slots) : Prop where
  flag : ∀ slot, 0 ≤ (state.server.usr slot).used
  threadUsed : ∀ slot, (state.thread slot).marks = true → (state.server.usr slot).used ≠ 0
  gateUsed : ∀ call slot, (state.gate call).marks slot → (state.server.usr slot).used ≠ 0
  apart : ∀ call slot, (state.gate call).Holds slot → state.thread slot = .waiting
  alone : ∀ first second slot, (state.gate first).Holds slot → (state.gate second).Holds slot →
    first = second

namespace Server

variable {net : Net} {server after : Server} {slot other : Nat}

theorem addAvUsrList_other (apart : other ≠ slot) (guest : Addr) :
    (server.addAvUsrList net slot guest).1.usr other = server.usr other := by
  unfold addAvUsrList
  dsimp only
  split
  · split <;> exact setUsr_usr_other _ apart _
  · rfl

theorem addAvUsrList_used (slot : Nat) (guest : Addr) :
    ((server.addAvUsrList net slot guest).1.usr slot).used = (server.usr slot).used := by
  unfold addAvUsrList
  dsimp only
  split
  · split <;> rw [setUsr_usr_same]
  · rfl

theorem delAvUsrList_usr (done : server.delAvUsrList net slot = some after) :
    (after.usr slot).used = 0 ∧ ∀ other ≠ slot, after.usr other = server.usr other := by
  unfold delAvUsrList at done
  dsimp only at done
  split at done
  · cases done
  · split at done
    · cases done
      exact ⟨by rw [setUsr_usr_same], fun other apart => setUsr_usr_other _ apart _⟩
    · cases done
      exact ⟨by rw [setUsr_usr_same], fun other apart => setUsr_usr_other _ apart _⟩

end Server

namespace Slots.Exclusive

variable {net : Net} {state : Slots} {slot : Nat}

/-- The thread of a slot that no call holds goes on. -/
theorem goThread (exclusive : state.Exclusive) {phase : Phase} {server : Server}
    (lMutex : Option Nat) (free : ∀ call, ¬ (state.gate call).Holds slot)
    (flag : 0 ≤ (server.usr slot).used)
    (used : phase.marks = true → (server.usr slot).used ≠ 0)
    (others : ∀ other ≠ slot, server.usr other = state.server.usr other) :
    Exclusive { state.goThread slot phase server with lMutex := lMutex } := by
  have elsewhere : ∀ other ≠ slot, Function.update state.thread slot phase other =
      state.thread other := fun other apart => Function.update_of_ne apart _ _
  have here : Function.update state.thread slot phase slot = phase := Function.update_self _ _ _
  refine ⟨fun other => ?_, fun other marks => ?_, fun call other marks => ?_,
    fun call other holds => ?_, exclusive.alone⟩
  · show 0 ≤ (server.usr other).used
    by_cases same : other = slot
    · rw [same]
      exact flag
    · rw [others other same]
      exact exclusive.flag other
  · have marks' : (Function.update state.thread slot phase other).marks = true := marks
    show (server.usr other).used ≠ 0
    by_cases same : other = slot
    · rw [same] at marks' ⊢
      rw [here] at marks'
      exact used marks'
    · rw [elsewhere other same] at marks'
      rw [others other same]
      exact exclusive.threadUsed other marks'
  · have different : other ≠ slot := by
      rintro rfl
      exact free call (Or.inr marks)
    show (server.usr other).used ≠ 0
    rw [others other different]
    exact exclusive.gateUsed call other marks
  · have different : other ≠ slot := by
      rintro rfl
      exact free call holds
    show Function.update state.thread slot phase other = .waiting
    rw [elsewhere other different]
    exact exclusive.apart call other holds

/-- A call goes on with a slot that no other call holds, and whose thread waits. -/
theorem goGate (exclusive : state.Exclusive) {call : Nat} {phase : GatePhase} {server : Server}
    (mine : ∀ other, (state.gate other).Holds slot → other = call)
    (waits : state.thread slot = .waiting) (within : ∀ taken, phase.Holds taken → taken = slot)
    (flag : 0 ≤ (server.usr slot).used)
    (used : phase.marks slot → (server.usr slot).used ≠ 0)
    (others : ∀ other ≠ slot, server.usr other = state.server.usr other) :
    Exclusive (state.goGate call phase server) := by
  have elsewhere : ∀ other ≠ call, Function.update state.gate call phase other =
      state.gate other := fun other apart => Function.update_of_ne apart _ _
  have here : Function.update state.gate call phase call = phase := Function.update_self _ _ _
  -- Who holds a slot afterwards is the call, with its slot, or another with another slot.
  have holders : ∀ other taken, (Function.update state.gate call phase other).Holds taken →
      other = call ∧ taken = slot ∨
        other ≠ call ∧ taken ≠ slot ∧ (state.gate other).Holds taken := by
    intro other taken holds
    by_cases same : other = call
    · rw [same, here] at holds
      exact Or.inl ⟨same, within taken holds⟩
    · rw [elsewhere other same] at holds
      refine Or.inr ⟨same, ?_, holds⟩
      rintro rfl
      exact same (mine other holds)
  refine ⟨fun other => ?_, fun other marks => ?_, fun other taken marks => ?_,
    fun other taken holds => ?_, fun first second taken one two => ?_⟩
  · show 0 ≤ (server.usr other).used
    by_cases same : other = slot
    · rw [same]
      exact flag
    · rw [others other same]
      exact exclusive.flag other
  · have different : other ≠ slot := by
      rintro rfl
      have marks' : (state.thread other).marks = true := marks
      rw [waits] at marks'
      cases marks'
    show (server.usr other).used ≠ 0
    rw [others other different]
    exact exclusive.threadUsed other marks
  · have marks' : (Function.update state.gate call phase other).marks taken := marks
    show (server.usr taken).used ≠ 0
    rcases holders other taken (Or.inr marks') with ⟨rfl, rfl⟩ | ⟨different, away, _⟩
    · rw [here] at marks'
      exact used marks'
    · rw [elsewhere other different] at marks'
      rw [others taken away]
      exact exclusive.gateUsed other taken marks'
  · rcases holders other taken holds with ⟨rfl, rfl⟩ | ⟨_, _, before⟩
    · exact waits
    · exact exclusive.apart other taken before
  · rcases holders first taken one with ⟨rfl, same⟩ | ⟨_, away, before⟩
    · rcases holders second taken two with ⟨rfl, _⟩ | ⟨_, away, _⟩
      · rfl
      · exact absurd same away
    · rcases holders second taken two with ⟨_, same⟩ | ⟨_, _, before'⟩
      · exact absurd same away
      · exact exclusive.alone first second taken before before'

theorem free_of_engaged (exclusive : state.Exclusive) (engaged : state.thread slot ≠ .waiting) :
    ∀ call, ¬ (state.gate call).Holds slot :=
  fun call holds => engaged (exclusive.apart call slot holds)

theorem write_eq {usr : Usr} {server : Server} (done : state.write slot usr = some server) :
    server = state.server.setUsr slot usr := by
  unfold Slots.write at done
  split at done
  · cases done
  · exact (Option.some.inj done).symm

/-- A step of the thread of a slot that sets its slot. -/
theorem goThread_setUsr (exclusive : state.Exclusive) {phase : Phase} {usr : Usr}
    (engaged : state.thread slot ≠ .waiting) (flag : 0 ≤ usr.used)
    (used : phase.marks = true → usr.used ≠ 0) :
    Exclusive (state.goThread slot phase (state.server.setUsr slot usr)) := by
  have here := Server.setUsr_usr_same state.server slot usr
  exact exclusive.goThread state.lMutex (exclusive.free_of_engaged engaged) (here.symm ▸ flag)
    (here.symm ▸ used) fun other apart => Server.setUsr_usr_other _ apart _

theorem threadStep {after : Slots} {move : Move} (exclusive : state.Exclusive)
    (orderly : ∀ other, move = .test other → (state.server.usr slot).used = 0 →
      ∀ call, ¬ (state.gate call).unmarked slot)
    (done : state.threadStep net slot move = some after) : after.Exclusive := by
  have flag := exclusive.flag slot
  have others : ∀ other ≠ slot, state.server.usr other = state.server.usr other :=
    fun _ _ => rfl
  have engaged : ∀ phase : Phase, phase ≠ .waiting → state.thread slot = phase →
      state.thread slot ≠ .waiting := fun phase busy here => here ▸ busy
  unfold Slots.threadStep at done
  split at done
  case h_1 other waits =>
    split at done
    · cases done
      exact exclusive
    · next unused =>
      cases done
      have zero : (state.server.usr slot).used = 0 := by omega
      refine exclusive.goThread state.lMutex (fun call holds => ?_) flag
        (fun never => by cases never)
        others
      rcases holds with unmarked | marks
      · exact orderly other rfl zero call unmarked
      · exact exclusive.gateUsed call slot marks zero
  case h_2 tested =>
    have free := exclusive.free_of_engaged (engaged _ Phase.noConfusion tested)
    split at done
    · cases done
      exact exclusive.goThread _ free flag (fun never => by cases never) others
    · cases done
      exact exclusive.goThread state.lMutex free flag (fun never => by cases never) others
  case h_3 locked =>
    obtain ⟨server, wrote, rfl⟩ := Option.map_eq_some_iff.mp done
    rw [write_eq wrote]
    exact exclusive.goThread_setUsr (engaged _ Phase.noConfusion locked) Int.one_nonneg
      fun _ => Int.one_ne_zero
  case h_4 accepting =>
    cases done
    exact exclusive.goThread state.lMutex
      (exclusive.free_of_engaged (engaged _ Phase.noConfusion accepting)) flag
      (fun _ => exclusive.threadUsed slot (by rw [accepting]; rfl)) others
  case h_5 accepting =>
    cases done
    exact exclusive.goThread _ (exclusive.free_of_engaged (engaged _ Phase.noConfusion accepting))
      flag (fun never => by cases never) others
  case h_6 accepted =>
    cases done
    exact exclusive.goThread_setUsr (engaged _ Phase.noConfusion accepted) (Int.le_refl 0)
      fun never => by cases never
  case h_7 guest fd cleared =>
    cases done
    refine exclusive.goThread _ (exclusive.free_of_engaged (engaged _ Phase.noConfusion cleared))
      ?_ (fun never => ?_) fun other apart => Server.addAvUsrList_other apart guest
    · rw [Server.addAvUsrList_used]
      exact flag
    · split at never <;> cases never
  case h_8 listed =>
    cases done
    exact exclusive.goThread_setUsr (engaged _ Phase.noConfusion listed) flag
      fun never => by cases never
  case h_9 serving =>
    obtain ⟨server, deleted, rfl⟩ := Option.map_eq_some_iff.mp done
    obtain ⟨unused, rest⟩ := Server.delAvUsrList_usr deleted
    exact exclusive.goThread state.lMutex
      (exclusive.free_of_engaged (engaged _ Phase.noConfusion serving)) (Int.le_of_eq unused.symm)
      (fun never => by cases never) rest
  case h_10 => cases done

/-- A call that has taken a slot goes on with it, or gives it up. -/
theorem goGate_held (exclusive : state.Exclusive) {call : Nat} {phase : GatePhase}
    {server : Server} (taken : (state.gate call).slot = some slot)
    (next : phase.slot = none ∨ phase.slot = some slot) (flag : 0 ≤ (server.usr slot).used)
    (used : phase.marks slot → (server.usr slot).used ≠ 0)
    (others : ∀ other ≠ slot, server.usr other = state.server.usr other) :
    Exclusive (state.goGate call phase server) := by
  have holds : (state.gate call).Holds slot := GatePhase.holds_iff.mpr taken
  refine exclusive.goGate (fun other held => exclusive.alone other call slot held holds)
    (exclusive.apart call slot holds) (fun other held => ?_) flag used others
  have same := GatePhase.holds_iff.mp held
  rcases next with none | some
  · rw [none] at same
    cases same
  · rw [some] at same
    exact (Option.some.inj same).symm

theorem goGate_setUsr (exclusive : state.Exclusive) {call : Nat} {phase : GatePhase} {usr : Usr}
    (taken : (state.gate call).slot = some slot)
    (next : phase.slot = none ∨ phase.slot = some slot) (flag : 0 ≤ usr.used)
    (used : phase.marks slot → usr.used ≠ 0) :
    Exclusive (state.goGate call phase (state.server.setUsr slot usr)) := by
  have here := Server.setUsr_usr_same state.server slot usr
  exact exclusive.goGate_held taken next (here.symm ▸ flag) (here.symm ▸ used)
    fun other apart => Server.setUsr_usr_other _ apart _

/-- The slot that `get_free_usr` returns is the first one that is not marked. -/
theorem first_of_getFreeUsr {server : Server} (found : server.getFreeUsr net = some slot) :
    (server.usr slot).used = 0 ∧ slot < net.total ∧
      ∀ other < slot, (server.usr other).used ≠ 0 := by
  obtain ⟨chosen, member, first⟩ := List.find?_range_eq_some.mp found
  refine ⟨of_decide_eq_true chosen, List.mem_range.mp member, fun other before => ?_⟩
  have passed := first other before
  simpa using passed

/-- The slot that an orderly call takes is held by nobody. -/
theorem free_of_orderly (exclusive : state.Exclusive) {call : Nat} {request : Request}
    (orderly : state.Orderly net (.pick call request))
    (found : state.server.getFreeUsr net = some slot) :
    (∀ other, ¬ (state.gate other).Holds slot) ∧ state.thread slot = .waiting := by
  obtain ⟨unused, inside, first⟩ := first_of_getFreeUsr found
  have untaken : ¬ state.Taken slot := by
    intro taken
    obtain ⟨idle, before, there⟩ := orderly slot inside taken
    exact first idle before there.used
  have quiet : (state.thread slot).unmarked = false :=
    Bool.eq_false_iff.mpr fun unmarked => untaken (.inl unmarked)
  have unmarked : ∀ other, ¬ (state.gate other).unmarked slot :=
    fun other early => untaken (.inr ⟨other, early⟩)
  refine ⟨fun other holds => ?_, ?_⟩
  · rcases holds with early | late
    · exact unmarked other early
    · exact exclusive.gateUsed other slot late unused
  · have notMarked : (state.thread slot).marks = false :=
      Bool.eq_false_iff.mpr fun marks => exclusive.threadUsed slot marks unused
    generalize state.thread slot = phase at quiet notMarked ⊢
    cases phase with
    | waiting => rfl
    | tested => cases quiet
    | locked => cases quiet
    | accepting => cases notMarked
    | accepted guest fd => cases notMarked
    | cleared guest fd => cases quiet
    | listed fd => cases quiet
    | serving fd => cases quiet

theorem gateStep {after : Slots} {call : Nat} {move : Move} (exclusive : state.Exclusive)
    (orderly : ∀ other request, move = .pick other request → state.Orderly net move)
    (done : state.gateStep net call move = some after) : after.Exclusive := by
  unfold Slots.gateStep at done
  split at done
  case h_1 other request idle =>
    split at done
    · cases done
      exact exclusive
    · next slot found =>
      cases done
      obtain ⟨free, waits⟩ := exclusive.free_of_orderly (orderly other request rfl) found
      refine exclusive.goGate (fun other holds => absurd holds (free other)) waits ?_
        (exclusive.flag slot) (fun never => never.elim) fun _ _ => rfl
      intro taken holds
      exact (Option.some.inj (GatePhase.holds_iff.mp holds)).symm
  case h_2 slot request picked =>
    cases done
    exact exclusive.goGate_setUsr (by rw [picked]; rfl) (Or.inr rfl) (Int.le_refl 0)
      fun never => never.elim
  case h_3 slot request cleared =>
    obtain ⟨server, wrote, rfl⟩ := Option.map_eq_some_iff.mp done
    rw [write_eq wrote]
    exact exclusive.goGate_setUsr (by rw [cleared]; rfl) (Or.inr rfl) Int.one_nonneg
      fun _ => Int.one_ne_zero
  case h_4 slot request marked =>
    have used := exclusive.gateUsed call slot (by rw [marked]; rfl)
    have taken : (state.gate call).slot = some slot := by
      rw [marked]
      rfl
    cases done
    refine exclusive.goGate_held taken ?_ ?_ (fun _ => ?_)
      fun other apart => Server.addAvUsrList_other apart _
    · split
      · exact Or.inl rfl
      · exact Or.inr rfl
    · rw [Server.addAvUsrList_used]
      exact exclusive.flag slot
    · rw [Server.addAvUsrList_used]
      exact used
  case h_5 fd slot request listed =>
    have used := exclusive.gateUsed call slot (by rw [listed]; rfl)
    split at done
    · cases done
      exact exclusive.goGate_held (by rw [listed]; rfl) (Or.inl rfl) (exclusive.flag slot)
        (fun never => never.elim) fun _ _ => rfl
    · obtain ⟨server, wrote, rfl⟩ := Option.map_eq_some_iff.mp done
      rw [write_eq wrote]
      exact exclusive.goGate_setUsr (by rw [listed]; rfl) (Or.inr rfl) (exclusive.flag slot)
        fun _ => used
  case h_6 sent slot request connected =>
    have used := exclusive.gateUsed call slot (by rw [connected]; rfl)
    split at done
    · cases done
      exact exclusive.goGate_held (by rw [connected]; rfl) (Or.inr rfl) (exclusive.flag slot)
        (fun _ => used) fun _ _ => rfl
    · obtain ⟨server, deleted, rfl⟩ := Option.map_eq_some_iff.mp done
      obtain ⟨unused, rest⟩ := Server.delAvUsrList_usr deleted
      exact exclusive.goGate_held (by rw [connected]; rfl) (Or.inl rfl)
        (Int.le_of_eq unused.symm) (fun never => never.elim) rest
  case h_7 outcome slot request sent =>
    have used := exclusive.gateUsed call slot (by rw [sent]; rfl)
    obtain ⟨server, wrote, rfl⟩ := Option.map_eq_some_iff.mp done
    rw [write_eq wrote]
    refine exclusive.goGate_setUsr (by rw [sent]; rfl) (Or.inr rfl) ?_ fun _ => ?_
    · split
      · exact exclusive.flag slot
      · rw [(Viewers.Sound.serve_kept _ request outcome).2.1]
        exact exclusive.flag slot
    · split
      · exact used
      · rw [(Viewers.Sound.serve_kept _ request outcome).2.1]
        exact used
  case h_8 => cases done

/-- What an orderly close leaves. -/
theorem closeStep {after : Slots} (exclusive : state.Exclusive)
    (orderly : state.Orderly net (.close slot))
    (done : state.closeStep net slot = some after) : after.Exclusive := by
  obtain ⟨server, deleted, rfl⟩ := Option.map_eq_some_iff.mp done
  obtain ⟨unused, rest⟩ := Server.delAvUsrList_usr deleted
  obtain ⟨call, opened⟩ := orderly
  have taken : (state.gate call).slot = some slot := by
    rw [opened]
    rfl
  have holds : (state.gate call).Holds slot := GatePhase.holds_iff.mpr taken
  -- No other call has a connection on the slot, so only this one ends.
  have ended : (fun other => match state.gate other with
      | .opened taken => if taken = slot then .idle else .opened taken
      | phase => phase) = Function.update state.gate call .idle := by
    funext other
    by_cases same : other = call
    · rw [same, Function.update_self, opened]
      exact if_pos rfl
    · rw [Function.update_of_ne same]
      cases here : state.gate other with
      | opened place =>
        have different : place ≠ slot := by
          rintro rfl
          exact same (exclusive.alone other call place
            (GatePhase.holds_iff.mpr (by rw [here]; rfl)) holds)
        exact if_neg different
      | idle => rfl
      | picked place request => rfl
      | cleared place request => rfl
      | marked place request => rfl
      | listed place request => rfl
      | connected place request => rfl
      | sent place request => rfl
  have next : Exclusive (state.goGate call .idle server) :=
    exclusive.goGate_held taken (Or.inl rfl) (Int.le_of_eq unused.symm) (fun never => never.elim)
      rest
  unfold Slots.goGate at next
  rw [← ended] at next
  exact next

theorem step {after : Slots} {move : Move} (exclusive : state.Exclusive)
    (orderly : state.Orderly net move) (done : state.step net move = some after) :
    after.Exclusive := by
  unfold Slots.step at done
  cases move with
  | test slot =>
    obtain ⟨_, taken⟩ := Option.ite_none_right_eq_some.mp done
    exact exclusive.threadStep (fun _ _ => orderly) taken
  | lock slot =>
    obtain ⟨_, taken⟩ := Option.ite_none_right_eq_some.mp done
    exact exclusive.threadStep (fun _ never => by cases never) taken
  | mark slot =>
    obtain ⟨_, taken⟩ := Option.ite_none_right_eq_some.mp done
    exact exclusive.threadStep (fun _ never => by cases never) taken
  | accept slot guest fd =>
    obtain ⟨_, taken⟩ := Option.ite_none_right_eq_some.mp done
    exact exclusive.threadStep (fun _ never => by cases never) taken
  | acceptError slot =>
    obtain ⟨_, taken⟩ := Option.ite_none_right_eq_some.mp done
    exact exclusive.threadStep (fun _ never => by cases never) taken
  | init slot =>
    obtain ⟨_, taken⟩ := Option.ite_none_right_eq_some.mp done
    exact exclusive.threadStep (fun _ never => by cases never) taken
  | add slot =>
    obtain ⟨_, taken⟩ := Option.ite_none_right_eq_some.mp done
    exact exclusive.threadStep (fun _ never => by cases never) taken
  | serve slot =>
    obtain ⟨_, taken⟩ := Option.ite_none_right_eq_some.mp done
    exact exclusive.threadStep (fun _ never => by cases never) taken
  | del slot =>
    obtain ⟨_, taken⟩ := Option.ite_none_right_eq_some.mp done
    exact exclusive.threadStep (fun _ never => by cases never) taken
  | close slot =>
    obtain ⟨_, taken⟩ := Option.ite_none_right_eq_some.mp done
    exact exclusive.closeStep orderly taken
  | pick call request => exact exclusive.gateStep (fun _ _ _ => orderly) done
  | clearGate call => exact exclusive.gateStep (fun _ _ _ => orderly) done
  | markGate call => exact exclusive.gateStep (fun _ _ _ => orderly) done
  | addGate call => exact exclusive.gateStep (fun _ _ _ => orderly) done
  | connectGate call fd => exact exclusive.gateStep (fun _ _ _ => orderly) done
  | sendGate call sent => exact exclusive.gateStep (fun _ _ _ => orderly) done
  | settleGate call outcome => exact exclusive.gateStep (fun _ _ _ => orderly) done

theorem start : Slots.start.Exclusive where
  flag := fun _ => Int.le_refl 0
  threadUsed := fun _ never => by cases never
  gateUsed := fun _ _ never => never.elim
  apart := fun _ _ _ => rfl
  alone := fun _ _ _ never => by cases GatePhase.holds_iff.mp never

end Slots.Exclusive

/-- No slot has two connections. -/
structure Slots.Separate (state : Slots) : Prop where
  thread : ∀ slot call, (state.thread slot).connection = true →
    ¬ (state.gate call).connection slot
  gate : ∀ first second slot, (state.gate first).connection slot →
    (state.gate second).connection slot → first = second

theorem Slots.Exclusive.separate {state : Slots} (exclusive : state.Exclusive) :
    state.Separate where
  thread := fun slot call connection connected => by
    rw [exclusive.apart call slot (GatePhase.holds_of_connection connected)] at connection
    cases connection
  gate := fun first second slot one two => exclusive.alone first second slot
    (GatePhase.holds_of_connection one) (GatePhase.holds_of_connection two)

/-- In a run of orderly steps no slot has two connections, and the slot that a call takes has
none. -/
theorem viewer_slots_exclusive {net : Net} {moves : List Move} {state : Slots}
    (run : Runs (fun before move after => Slots.step net before move = some after ∧
      before.Orderly net move) .start moves state) :
    state.Separate ∧ ∀ call request slot, state.Orderly net (.pick call request) →
      state.server.getFreeUsr net = some slot → ¬ state.Serving slot := by
  have exclusive : state.Exclusive :=
    run.invariant Slots.Exclusive.start fun _ _ _ taken exclusive => exclusive.step taken.2 taken.1
  refine ⟨exclusive.separate, fun call request slot orderly found => ?_⟩
  obtain ⟨free, waits⟩ := exclusive.free_of_orderly orderly found
  rintro (connection | ⟨other, connection⟩)
  · rw [waits] at connection
    cases connection
  · exact free other (GatePhase.holds_of_connection connection)

/-- While the first slot is idle and no call is under way, the platform may have the device
connect. -/
theorem Slots.orderly_of_first {net : Net} {state : Slots} {call : Nat} {request : Request}
    (used : (state.server.usr 0).used = 0) (thread : state.thread 0 = .waiting)
    (gate : ∀ other, state.gate other = .idle) : state.Orderly net (.pick call request) := by
  intro slot _ taken
  have idle : state.Idle 0 := ⟨used, thread, fun other => by
    rw [gate other]
    exact Option.some_ne_none _ ∘ Eq.symm⟩
  refine ⟨0, Nat.pos_of_ne_zero ?_, idle⟩
  rintro rfl
  rcases taken with busy | ⟨other, early⟩
  · rw [thread] at busy
    cases busy
  · rw [gate other] at early
    exact early

/-- A viewer is served on the second slot when a call takes the first one and connects. -/
theorem viewer_slots_exclusive_beside :
    ∃ before after : Slots, before.thread 1 = .serving 8 ∧
      before.server.getFreeUsr smallNet = some 0 ∧ ¬ before.Serving 0 ∧ after.Separate ∧
      after.thread 1 = .serving 8 ∧ (after.gate 0).connection 0 := by
  have tested := @Runs.snoc Slots Move (fun before move after =>
    Slots.step smallNet before move = some after ∧ before.Orderly smallNet move) .start [] .start _
    (.test 1) .nil ⟨rfl, fun _ _ never => never⟩
  have locked := @Runs.snoc Slots Move _ .start _ _ _ (.lock 1) tested ⟨rfl, trivial⟩
  have marked := @Runs.snoc Slots Move _ .start _ _ _ (.mark 1) locked ⟨rfl, trivial⟩
  have accepted := @Runs.snoc Slots Move _ .start _ _ _ (.accept 1 0xc0a80109 8) marked
    ⟨rfl, trivial⟩
  have cleared := @Runs.snoc Slots Move _ .start _ _ _ (.init 1) accepted ⟨rfl, trivial⟩
  have listed := @Runs.snoc Slots Move _ .start _ _ _ (.add 1) cleared ⟨rfl, trivial⟩
  have serving := @Runs.snoc Slots Move _ .start _ _ _ (.serve 1) listed ⟨rfl, trivial⟩
  have picked := @Runs.snoc Slots Move _ .start _ _ _ (.pick 0 ⟨0x08080808, 0, 0, 0⟩) serving
    ⟨rfl, Slots.orderly_of_first rfl rfl fun _ => rfl⟩
  have initialised := @Runs.snoc Slots Move _ .start _ _ _ (.clearGate 0) picked ⟨rfl, trivial⟩
  have markedGate := @Runs.snoc Slots Move _ .start _ _ _ (.markGate 0) initialised ⟨rfl, trivial⟩
  have listedGate := @Runs.snoc Slots Move _ .start _ _ _ (.addGate 0) markedGate ⟨rfl, trivial⟩
  have connected := @Runs.snoc Slots Move _ .start _ _ _ (.connectGate 0 9) listedGate
    ⟨rfl, trivial⟩
  exact ⟨_, _, rfl, rfl, (viewer_slots_exclusive serving).2 0 ⟨0x08080808, 0, 0, 0⟩ 0
    (Slots.orderly_of_first rfl rfl fun _ => rfl) rfl,
    (viewer_slots_exclusive connected).1, rfl, rfl⟩

/-- The slot of a viewer that has been accepted is taken for a second one. -/
theorem serving_slot_taken :
    ¬ ∀ net moves state, Runs (fun before move after => Slots.step net before move = some after)
      .start moves state → state.Separate ∧
        ∀ slot, state.server.getFreeUsr net = some slot → ¬ state.Serving slot := by
  intro always
  obtain ⟨state, run, both⟩ := @Runs.of_any Slots Move .start (Slots.step smallNet)
    [.test 0, .lock 0, .mark 0, .accept 0 0xc0a80109 8, .init 0, .add 0, .serve 0,
      .pick 0 ⟨0x08080808, 0, 0, 0⟩, .clearGate 0, .markGate 0, .addGate 0, .connectGate 0 9]
    (fun after => (after.thread 0).connection = true ∧ (after.gate 0).connection 0) (by decide)
  obtain ⟨accepted, connected⟩ := of_decide_eq_true both
  exact (always smallNet _ state run).1.thread 0 0 accepted connected

end ExmOnvif.Rtimage
