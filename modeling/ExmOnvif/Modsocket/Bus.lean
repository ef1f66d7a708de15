/-
This file models how the modules of the device talk to each other by datagrams that go to all of
them, and proves what each module is handed, in whatever order the modules send and receive.

A datagram that is too long for a module ends its call with an error, before it is seen for which
module it was, and whether it is one of theirs at all. What the kernel drops at a socket is lost to
this module only.
-/

import ExmOnvif.Library.Bytes
import ExmOnvif.Library.Chunks
import ExmOnvif.Library.Runs
import Mathlib.Algebra.Ring.Int.Defs
import Mathlib.Logic.Function.Basic
import Mathlib.Tactic.Common

namespace ExmOnvif.Modsocket

open Library

/-! ### The functions -/

/-- `MAX_MOD_SOCKET_CMD_LEN`. -/
def maxModSocketCmdLen : Nat := 2048

/-- `MOD_SOCKET_MAGIC`. -/
def modSocketMagic : Nat := 0x8135

/-- `ALL_PROCESS`. -/
def allProcess : Int := 0

/-- An `int` as a `DWORD`. -/
def dword (value : Int) : Nat := (value % 2 ^ 32).toNat

/-- The range of an `int`. -/
def IsInt (value : Int) : Prop := -2 ^ 31 ≤ value ∧ value < 2 ^ 31

/-- A call of `mod_socket_send`, with what lies in the two words of its buffer that it does not
set. -/
structure Command where
  target : Int
  source : Int
  data : Bytes
  reserve : Bytes
  targetInt : IsInt target
  sourceInt : IsInt source
  reserveWords : reserve.length = 8

/-- The head of a datagram. -/
def Command.head (command : Command) : Bytes :=
  wordBytes modSocketMagic ++
    (wordBytes (dword command.source) ++ (wordBytes (dword command.target) ++
    (command.reserve ++ (wordBytes command.data.length))))

/-- What `mod_socket_send` hands to the kernel; `none` where it writes behind its buffer. -/
def modSocketSend (command : Command) : Option Bytes :=
  if maxModSocketCmdLen < command.data.length + 24 then none
    else some (command.head ++ command.data)

/-- What a call of `mod_socket_recv` hands out: a command with what is returned, or an error. -/
inductive Answer where
  | command (source target : Int) (data : Bytes) (ret : Int)
  | enobufs
  | ended
deriving DecidableEq

/-- A module, with the length that its calls are given. -/
structure Module where
  myid : Int
  cmdMaxlen : Int

/-- A word of the buffer. -/
def word (buf : Bytes) (place : Nat) : Nat := wordOf (readAt buf place 4)

/-- A turn of the loop of `mod_socket_req_recv` with a datagram: the buffer and what is handed out,
if anything. `none` where more is copied than there is in the buffer. -/
def Module.turn (mod : Module) (buf datagram : Bytes) : Option (Bytes × Option Answer) :=
  let got := datagram.take maxModSocketCmdLen
  let buf := writeAt buf 0 got
  if got.length = 0 then some (buf, some .ended)
  else if wordInt (word buf 20) > mod.cmdMaxlen then some (buf, some .enobufs)
  else if word buf 0 ≠ modSocketMagic then some (buf, none)
  else if wordInt (word buf 8) ≠ mod.myid ∧ wordInt (word buf 8) ≠ allProcess ∧
      mod.myid ≠ allProcess then some (buf, none)
  else if buf.length < 24 + word buf 20 then none
  else some (buf, some (.command (wordInt (word buf 4)) (wordInt (word buf 8))
    (readAt buf 24 (word buf 20)) (got.length - 24)))

/-! ### Datagrams -/

theorem wordInt_dword {value : Int} (int : IsInt value) : wordInt (dword value) = value := by
  obtain ⟨low, high⟩ := int
  unfold wordInt dword
  split <;> omega

theorem dword_lt (value : Int) : dword value < 2 ^ 32 := by
  unfold dword
  omega

/-- A datagram of another program. It has the head of a command with another magic number. -/
structure Stray where
  bytes : Bytes
  headed : 24 ≤ bytes.length
  other : word bytes 0 ≠ modSocketMagic

/-- What comes to the sockets. -/
inductive Traffic where
  | command (command : Command)
  | stray (stray : Stray)

/-- The bytes that come. -/
def Traffic.bytes : Traffic → Bytes
  | .command cmd => cmd.head ++ cmd.data
  | .stray other => other.bytes

/-- What a module is to hand out for a datagram: a command for it or for all, and an error for
whatever is too long, also if it is for another module. -/
def Module.receipt (mod : Module) : Traffic → Option Answer
  | .command command =>
    if mod.cmdMaxlen < command.data.length then some .enobufs
    else if command.target = mod.myid ∨ command.target = allProcess ∨ mod.myid = allProcess then
      some (.command command.source command.target command.data command.data.length)
    else none
  | .stray stray => if mod.cmdMaxlen < wordInt (word stray.bytes 20) then some .enobufs else none

section Turns

variable {mod : Module} {buf datagram : Bytes}

theorem Command.length_head (command : Command) : command.head.length = 24 := by
  simp only [head, List.length_append, wordBytes_length, command.reserveWords]

theorem word_of_at {place value : Nat} (here : At buf place (wordBytes value))
    (small : value < 2 ^ 32) :
    word buf place = value := by
  rw [word, here.read (wordBytes_length value), wordOf_wordBytes small]

/-- The words of a command where it begins. -/
theorem Command.words {command : Command} {data : Bytes} (here : At buf 0 (command.head ++ data))
    (short : command.data.length < 2 ^ 32) :
    word buf 0 = modSocketMagic ∧ wordInt (word buf 4) = command.source ∧
      wordInt (word buf 8) = command.target ∧ word buf 20 = command.data.length ∧
          At buf 24 data := by
  have magic : At buf 0 (wordBytes modSocketMagic ++ _) := here.left
  have source : At buf 4 _ := magic.right
  have target : At buf 8 _ := source.right
  have reserve : At buf 12 _ := target.right
  have length := reserve.right
  have data' := here.right
  rw [Nat.zero_add, command.length_head] at data'
  rw [command.reserveWords] at length
  refine ⟨?_, ?_, ?_, ?_, data'⟩
  · exact word_of_at magic.left (by decide)
  · rw [word_of_at source.left (dword_lt _), wordInt_dword command.sourceInt]
  · rw [word_of_at target.left (dword_lt _), wordInt_dword command.targetInt]
  · exact word_of_at length short

/-- A datagram is at the front of the buffer it is read to. -/
theorem at_read (buf got : Bytes) : At (writeAt buf 0 got) 0 got := by
  rw [writeAt_eq (Nat.zero_le _), List.take_zero, List.nil_append]
  exact List.prefix_append _ _

theorem length_read (long : buf.length = 4 * maxModSocketCmdLen) :
    (writeAt buf 0 (datagram.take maxModSocketCmdLen)).length = 4 * maxModSocketCmdLen := by
  have short : (datagram.take maxModSocketCmdLen).length ≤ maxModSocketCmdLen :=
    List.length_take_le _ _
  rw [length_writeAt _ (Nat.zero_le _)]
  omega

/-- A command comes to a module. -/
theorem Module.turn_command {command : Command} (made : modSocketSend command = some datagram)
    (long : buf.length = 4 * maxModSocketCmdLen) :
    datagram = (Traffic.command command).bytes ∧
      mod.turn buf datagram = some (writeAt buf 0 (datagram.take maxModSocketCmdLen),
        mod.receipt (.command command)) := by
  unfold modSocketSend at made
  split at made
  · cases made
  next fits =>
  cases made
  refine ⟨rfl, ?_⟩
  have length : (command.head ++ command.data).length = command.data.length + 24 := by
    rw [List.length_append, command.length_head, Nat.add_comm]
  have whole : (command.head ++ command.data).take maxModSocketCmdLen = command.head ++
    command.data :=
    List.take_of_length_le (by omega)
  have short : command.data.length < 2 ^ 31 := by
    unfold maxModSocketCmdLen at fits
    omega
  obtain ⟨magic, source, target, len, data⟩ :=
    Command.words (at_read buf (command.head ++ command.data))
    (Nat.lt_trans short (by decide))
  have taken : readAt (writeAt buf 0 (command.head ++ command.data)) 24 command.data.length =
      command.data := data.read rfl
  have some : ¬command.data.length + 24 = 0 := Nat.succ_ne_zero _
  have lenInt : wordInt command.data.length = command.data.length := if_pos short
  have room : ¬(writeAt buf 0 (command.head ++ command.data)).length < 24 +
      command.data.length := by
    have kept := @length_read buf (command.head ++ command.data) long
    rw [whole] at kept
    rw [kept]
    omega
  unfold turn receipt
  simp only [whole, length, if_neg some, magic, source, target, len, lenInt, if_neg room, taken]
  by_cases large : mod.cmdMaxlen < command.data.length
  · rw [if_pos large, if_pos large]
  · rw [if_neg large, if_neg large, if_neg (not_not.mpr rfl)]
    by_cases mine : command.target = mod.myid ∨ command.target = allProcess ∨ mod.myid = allProcess
    · have ours : ¬(command.target ≠ mod.myid ∧ command.target ≠ allProcess ∧
          mod.myid ≠ allProcess) := fun others =>
        mine.elim others.1 fun all => all.elim others.2.1 others.2.2
      have ret : ((command.data.length + 24 : Nat) : Int) - 24 = command.data.length := by omega
      rw [if_neg ours, if_pos mine, ret]
    · obtain ⟨target', all, listening⟩ := (not_or.mp mine).imp_right not_or.mp
      rw [if_pos ⟨target', all, listening⟩, if_neg mine]

/-- A datagram of another program comes to a module. -/
theorem Module.turn_stray (stray : Stray) :
    mod.turn buf stray.bytes = some (writeAt buf 0 (stray.bytes.take maxModSocketCmdLen),
      mod.receipt (.stray stray)) := by
  have headed := stray.headed
  have got : 24 ≤ (stray.bytes.take maxModSocketCmdLen).length := by
    rw [List.length_take]
    exact Nat.le_min.mpr ⟨by decide, headed⟩
  have words (place : Nat) (inside : place + 4 ≤ 24) :
      word (writeAt buf 0 (stray.bytes.take maxModSocketCmdLen)) place =
          word stray.bytes place := by
    have here : At (stray.bytes.take maxModSocketCmdLen) place (readAt stray.bytes place 4) := by
      rw [At, List.drop_take, readAt]
      exact List.take_prefix_take_left (by unfold maxModSocketCmdLen; omega)
    have length : (readAt stray.bytes place 4).length = 4 := by
      rw [readAt_length]
      omega
    have there := (at_read buf (stray.bytes.take maxModSocketCmdLen)).within here
    rw [Nat.zero_add] at there
    rw [word, there.read length, word]
  have some : ¬(stray.bytes.take maxModSocketCmdLen).length = 0 := by omega
  unfold turn receipt
  simp only [if_neg some, words 20 (by decide), words 0 (by decide), if_pos stray.other]
  split <;> rfl

end Turns

/-! ### The modules together -/

variable {ι : Type} {modules : ι → Module}

/-- The sockets of the modules with what waits in them, the buffers of the calls, and what the calls
have handed out, beside all that was ever sent. -/
structure Bus (ι : Type) where
  sent : List Traffic
  queue : ι → List Bytes
  buffer : ι → Bytes
  handed : ι → List Answer

/-- What happens: a module sends, another program does, a module receives a datagram, or its call
fails. A datagram reaches some sockets; at the others the kernel drops it. The next call has some
buffer. -/
inductive Move (ι : Type) where
  | send (cmd : Command) (reach : ι → Bool)
  | stray (other : Stray) (reach : ι → Bool)
  | receive (here : ι) (next : Bytes)
  | fail (here : ι) (next : Bytes)

namespace Bus

variable {bus after : Bus ι}

/-- A datagram comes to the sockets. -/
def arrive (bus : Bus ι) (traffic : Traffic) (bytes : Bytes) (reach : ι → Bool) : Bus ι :=
  { bus with
    sent := bus.sent ++ [traffic]
    queue := fun here => if reach here then bus.queue here ++ [bytes] else bus.queue here }

/-- Nothing was sent yet. -/
structure Fresh (bus : Bus ι) : Prop where
  sent : bus.sent = []
  queue : ∀ here, bus.queue here = []
  buffer : ∀ here, (bus.buffer here).length = 4 * maxModSocketCmdLen
  handed : ∀ here, bus.handed here = []

/-- What may be said of a datagram that waits. -/
def Comes (traffic : Traffic) (datagram : Bytes) : Prop :=
  match traffic with
  | .command cmd => modSocketSend cmd = some datagram
  | .stray other => datagram = other.bytes

/-- A module has handed out what it is to, of a part of what was sent, in order, and the rest
waits. -/
structure InOrder (modules : ι → Module) (bus : Bus ι) (here : ι)
    (taken waiting : List Traffic) : Prop where
  sublist : (taken ++ waiting).Sublist bus.sent
  queue : List.Forall₂ Comes waiting (bus.queue here)
  handed : bus.handed here = taken.filterMap (modules here).receipt

/-- The invariant. -/
def Sound (modules : ι → Module) (bus : Bus ι) : Prop :=
  ∀ here, (bus.buffer here).length = 4 * maxModSocketCmdLen ∧
    ∃ taken waiting, bus.InOrder modules here taken waiting

/-- A turn with a datagram that waits hands out what is to be handed out for it. -/
theorem Comes.turn {mod : Module} {traffic : Traffic} {datagram buf : Bytes}
    (comes : Comes traffic datagram) (long : buf.length = 4 * maxModSocketCmdLen) :
    mod.turn buf datagram =
      some (writeAt buf 0 (datagram.take maxModSocketCmdLen), mod.receipt traffic) := by
  cases traffic with
  | command cmd => exact (Module.turn_command comes long).2
  | stray other =>
    rw [show datagram = other.bytes from comes]
    exact Module.turn_stray other

theorem Sound.arrive {traffic : Traffic} {datagram : Bytes} (sound : bus.Sound modules)
    (comes : Comes traffic datagram) (reach : ι → Bool) :
    (bus.arrive traffic datagram reach).Sound modules := by
  intro here
  obtain ⟨long, taken, waiting, order⟩ := sound here
  refine ⟨long, ?_⟩
  by_cases reached : reach here = true
  · refine ⟨taken, waiting ++ [traffic], ?_, ?_, order.handed⟩
    · rw [← List.append_assoc]
      exact order.sublist.append (List.Sublist.refl _)
    · show List.Forall₂ Comes _ (if reach here then _ else _)
      rw [if_pos reached]
      exact List.rel_append order.queue (List.Forall₂.cons comes List.Forall₂.nil)
  · refine ⟨taken, waiting, order.sublist.trans (List.sublist_append_left _ _), ?_, order.handed⟩
    show List.Forall₂ Comes _ (if reach here then _ else _)
    rw [if_neg reached]
    exact order.queue

theorem Fresh.sound (fresh : bus.Fresh) : bus.Sound modules := by
  intro here
  refine ⟨fresh.buffer here, [], [], ?_, ?_, ?_⟩
  · exact List.nil_sublist _
  · rw [fresh.queue here]
    exact List.Forall₂.nil
  · exact fresh.handed here

variable [DecidableEq ι]

/-- A module has received a datagram. -/
def receive (bus : Bus ι) (here : ι) (rest : List Bytes) (buf next : Bytes)
    (answer : Option Answer) : Bus ι :=
  { bus with
    queue := Function.update bus.queue here rest
    buffer := Function.update bus.buffer here (if answer = none then buf else next)
    handed := Function.update bus.handed here (bus.handed here ++ answer.toList) }

/-- The steps. -/
inductive Step (modules : ι → Module) : Bus ι → Move ι → Bus ι → Prop where
  | send {bus : Bus ι} {cmd : Command} {reach : ι → Bool} {datagram : Bytes}
      (made : modSocketSend cmd = some datagram) :
      Step modules bus (.send cmd reach) (bus.arrive (.command cmd) datagram reach)
  | stray {bus : Bus ι} {other : Stray} {reach : ι → Bool} :
      Step modules bus (.stray other reach) (bus.arrive (.stray other) other.bytes reach)
  | receive {bus : Bus ι} {here : ι} {next datagram buf : Bytes} {rest : List Bytes}
      {answer : Option Answer} (long : next.length = 4 * maxModSocketCmdLen)
      (queued : bus.queue here = datagram :: rest)
      (turn : (modules here).turn (bus.buffer here) datagram = some (buf, answer)) :
      Step modules bus (.receive here next) (bus.receive here rest buf next answer)
  | fail {bus : Bus ι} {here : ι} {next : Bytes} (long : next.length = 4 * maxModSocketCmdLen) :
      Step modules bus (.fail here next) { bus with buffer := Function.update bus.buffer here next }

section Received

variable (bus : Bus ι) (here : ι) (rest : List Bytes) (buf next : Bytes) (answer : Option Answer)

theorem queue_receive :
    (bus.receive here rest buf next answer).queue = Function.update bus.queue here rest := rfl

theorem buffer_receive : (bus.receive here rest buf next answer).buffer =
    Function.update bus.buffer here (if answer = none then buf else next) := rfl

theorem handed_receive : (bus.receive here rest buf next answer).handed =
    Function.update bus.handed here (bus.handed here ++ answer.toList) := rfl

end Received

theorem Sound.receive {here : ι} {next datagram buf : Bytes} {rest : List Bytes}
    {answer : Option Answer}
    (sound : bus.Sound modules) (long : next.length = 4 * maxModSocketCmdLen)
    (queued : bus.queue here = datagram :: rest)
    (turn : (modules here).turn (bus.buffer here) datagram = some (buf, answer)) :
    (bus.receive here rest buf next answer).Sound modules := by
  intro other
  obtain ⟨long', taken, waiting, order⟩ := sound other
  by_cases same : other = here
  · subst same
    have queue := order.queue
    rw [queued] at queue
    obtain ⟨traffic, waiting, comes, others, rfl⟩ := List.forall₂_cons_right_iff.mp queue
    rw [Comes.turn comes long', Option.some.injEq, Prod.mk.injEq] at turn
    obtain ⟨rfl, rfl⟩ := turn
    refine ⟨?_, taken ++ [traffic], waiting, ?_, ?_, ?_⟩
    · rw [buffer_receive, Function.update_self]
      split
      · exact length_read long'
      · exact long
    · rw [List.append_assoc, List.singleton_append]
      exact order.sublist
    · rw [queue_receive, Function.update_self]
      exact others
    · rw [handed_receive, Function.update_self, order.handed, List.filterMap_append]
      cases read : (modules other).receipt traffic with
      | none => rw [List.filterMap_cons_none read]; rfl
      | some answer => rw [List.filterMap_cons_some read]; rfl
  · refine ⟨?_, taken, waiting, order.sublist, ?_, ?_⟩
    · rw [buffer_receive, Function.update_of_ne same]
      exact long'
    · rw [queue_receive, Function.update_of_ne same]
      exact order.queue
    · rw [handed_receive, Function.update_of_ne same]
      exact order.handed

/-- Every step keeps the invariant. -/
theorem Sound.step {move : Move ι} (sound : bus.Sound modules)
    (step : Step modules bus move after) :
    after.Sound modules := by
  cases step with
  | send made => exact @Sound.arrive _ _ _ (.command _) _ sound made _
  | stray => exact @Sound.arrive _ _ _ (.stray _) _ sound rfl _
  | receive long queued turn => exact sound.receive long queued turn
  | @fail here next long =>
    intro other
    obtain ⟨long', kept⟩ := sound other
    obtain ⟨taken, waiting, order⟩ := kept
    refine ⟨?_, taken, waiting, order.sublist, order.queue, order.handed⟩
    show (Function.update bus.buffer here next other).length = _
    rw [Function.update_apply]
    split
    · exact long
    · exact long'

/-- The invariant holds after every run. -/
theorem Fresh.sound_run {start : Bus ι} {moves : List (Move ι)} (fresh : start.Fresh)
    (run : Runs (Step modules) start moves bus) : bus.Sound modules :=
  run.invariant fresh.sound fun _ _ _ step sound => Sound.step sound step

/-- In whatever order the modules and others send and receive, each module is handed the commands
that reach its socket and are for it or for all, once each, unchanged and in the order in which they
were sent, with an error in the place of whatever is too long for it; and no turn with what waits is
undefined. -/
theorem bus_in_order {start : Bus ι} {moves : List (Move ι)} (fresh : start.Fresh)
    (run : Runs (Step modules) start moves bus) (here : ι) :
    ∃ taken waiting : List Traffic, (taken ++ waiting).Sublist bus.sent ∧
      bus.queue here = waiting.map Traffic.bytes ∧
      bus.handed here = taken.filterMap (modules here).receipt ∧
      ∀ datagram rest, bus.queue here = datagram :: rest →
        (modules here).turn (bus.buffer here) datagram ≠ none := by
  obtain ⟨long, taken, waiting, order⟩ := fresh.sound_run run here
  have bytes : ∀ traffic datagram, Comes traffic datagram → traffic.bytes = datagram := by
    intro traffic datagram comes
    cases traffic with
    | command cmd => exact (@Module.turn_command (modules here) _ _ _ comes long).1.symm
    | stray other => exact Eq.symm comes
  refine ⟨taken, waiting, order.sublist, ?_, order.handed, fun datagram rest queued => ?_⟩
  · have same := List.forall₂_map_left_iff.mpr (order.queue.imp bytes)
    rw [List.forall₂_eq_eq_eq] at same
    exact same.symm
  · have queue := order.queue
    rw [queued] at queue
    obtain ⟨traffic, _, comes, _, _⟩ := List.forall₂_cons_right_iff.mp queue
    rw [Comes.turn comes long]
    exact Option.some_ne_none _

/-- A command of the module 1. -/
def fromFirst (target : Int) (data : Bytes) (int : IsInt target) : Command where
  target := target
  source := 1
  data := data
  reserve := List.replicate 8 0
  targetInt := int
  sourceInt := ⟨by decide, by decide⟩
  reserveWords := rfl

/-- Two modules that take two bytes. -/
def pair (second : Bool) : Module := ⟨if second then 2 else 1, 2⟩

/-- Two sockets before anything is sent. -/
def quiet : Bus Bool :=
  ⟨[], fun _ => [], fun _ => List.replicate (4 * maxModSocketCmdLen) 0, fun _ => []⟩

/-- The second module is handed the command for it, and an error for the long one that is for the
first. -/
theorem bus_in_order_two : ∃ moves bus, Runs (Step pair) quiet moves bus ∧
    bus.handed true = [.command 1 2 [7] 1, .enobufs] ∧
    ∃ taken waiting : List Traffic, (taken ++ waiting).Sublist bus.sent ∧
      bus.queue true = waiting.map Traffic.bytes ∧
      bus.handed true = taken.filterMap (pair true).receipt := by
  let short := fromFirst 2 [7] ⟨by decide, by decide⟩
  let long := fromFirst 1 [1, 2, 3] ⟨by decide, by decide⟩
  have zeros : (List.replicate (4 * maxModSocketCmdLen) (0 : UInt8)).length =
    4 * maxModSocketCmdLen :=
    List.length_replicate
  have shortMade : modSocketSend short = some (short.head ++ short.data) := if_neg (by decide)
  have longMade : modSocketSend long = some (long.head ++ long.data) := if_neg (by decide)
  have fresh : quiet.Fresh := ⟨rfl, fun _ => rfl, fun _ => zeros, fun _ => rfl⟩
  have none : Runs (Step pair) quiet [] quiet := .nil
  have sent := (none.snoc (@Step.send _ _ pair _ short (fun _ => true) _ shortMade)).snoc
    (@Step.send _ _ pair _ long (fun _ => true) _ longMade)
  have first := sent.snoc (@Step.receive _ _ pair _ true _ _ _ _ _ zeros rfl
    (Module.turn_command shortMade zeros).2)
  have kept := fresh.sound_run first
  have run := first.snoc (@Step.receive _ _ pair _ true _ _ _ _ _ zeros rfl
    (Module.turn_command longMade (kept true).1).2)
  obtain ⟨taken, waiting, sublist, queue, handed, _⟩ := bus_in_order fresh run true
  exact ⟨_, _, run, rfl, taken, waiting, sublist, queue, handed⟩

end Bus

end ExmOnvif.Modsocket
