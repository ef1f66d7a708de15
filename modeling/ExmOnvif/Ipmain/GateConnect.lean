/-
This file models the connection of the device to one gateway, and says when the thread that
reads it closes only what is its own. `connect_to_gate` opens the connection and starts the
thread `recv_gate_ack_thread`, which keeps a copy of the descriptor. `set_gate_ip` closes the
connection from another thread when the address changes. The reader gives the connection up
when a receive fails, but only after a pause of twenty seconds.

The reader closes the number it has a copy of without asking what it stands for by then. When
the address was changed since, the number was closed already, and the next connection was given
the same number. After a failed `select` the reader closes the number twice by itself, with the
pause between. And while the reader lives no other one is started, so that a connection made in
its last moments is read by nobody.

Steps are as fine as the mutex of the gateway leaves them: the sections it protects are one step
each, but for the call of `connect`, which is made with the mutex held and takes its time.
-/

import ExmOnvif.Library.Descriptors
import ExmOnvif.Library.Runs

namespace ExmOnvif.Ipmain

open Library

/-! ### The gateway and its readers -/

/-- Where a `recv_gate_ack_thread` is. -/
inductive ReaderPhase where
  /-- It has not taken its copy of the descriptor yet. -/
  | created
  | looping
  /-- A `select` failed, and the descriptor is to be closed. -/
  | closing
  /-- It left the loop. -/
  | pausing
  /-- It gave the connection up, and is still registered. -/
  | ending
deriving DecidableEq, Repr

/-- A `recv_gate_ack_thread`. -/
structure Reader where
  /-- The connection it was created for. -/
  own : Nat
  netfd : Int
  phase : ReaderPhase

/-- What a `select` of a reader returns, with what is received from a descriptor that is set. -/
inductive Selected where
  | timeout
  | interrupted
  | failed
  /-- The descriptor is not set. -/
  | unset
  /-- What `gt_cmd_pkt_recv_env` returns. -/
  | received (ret : Int)
deriving DecidableEq

/-- `EAGAIN`. -/
def eagain : Int := 11

/-- A receive failed for good. -/
def Selected.lost : Selected → Bool
  | .received ret => ret < 0 && ret ≠ -eagain
  | _ => false

/-- Whether the reader leaves its loop. -/
def Reader.leaves (reader : Reader) (fd : Int) (selected : Selected) : Bool :=
  reader.netfd ≤ 0 ||
    match selected with
    | .timeout => fd < 0
    | .failed => true
    | .interrupted | .unset => false
    | .received _ => selected.lost

/-- `gate_struct`, with the descriptors of the process and the threads that read the gateway. -/
structure Gate where
  /-- For each descriptor, the opening it stands for. -/
  descriptors : List (Option Nat)
  /-- The number of the next opening. -/
  opened : Nat
  fd : Int
  /-- The connection that `fd` was set to. -/
  connection : Option Nat
  gateaddr : BitVec 32
  /-- The descriptor and the opening of a `connect_to_gate` that holds the mutex. -/
  connecting : Option (Nat × Nat)
  recvGateAckId : Int
  readers : List Reader
  /-- Whether a reader closed what was not its own, or was closed already. -/
  strayClose : Bool
  /-- Whether a reader reset `fd` when it was not its own connection. -/
  strayReset : Bool

namespace Gate

/-- The process has some descriptors open, and no gateway is set. -/
def start (files : List Bool) : Gate where
  descriptors := files.map fun file => if file then some 0 else none
  opened := 1
  fd := -1
  connection := none
  gateaddr := 0
  connecting := none
  recvGateAckId := -1
  readers := []
  strayClose := false
  strayReset := false

/-! ### The steps -/

/-- `set_gate_ip`. -/
def setGateIp (gate : Gate) (ip : BitVec 32) : Gate :=
  if 0 < gate.fd then
    { gate with
      descriptors := release gate.descriptors gate.fd.toNat
      fd := -1
      connection := none
      gateaddr := ip }
  else { gate with gateaddr := ip }

/-- `connect_to_gate` up to the call of `connect`. The descriptor zero is not used, nor is it
closed. -/
def connectBegin (gate : Gate) (socketOk : Bool) : Gate :=
  if 0 < gate.fd then gate
  else if gate.gateaddr = 0 then gate
  else if socketOk then
    let sock := lowestFree gate.descriptors
    { gate with
      descriptors := acquire gate.descriptors gate.opened
      opened := gate.opened + 1
      connecting := if 0 < sock then some (sock, gate.opened) else none }
  else gate

/-- `create_recv_gate_ack_thread`: no second reader is started. `pthread_create` stores a
number, or fails. -/
def createRecvGateAckThread (gate : Gate) (opening : Nat) (created : Option Int) : Gate :=
  if gate.recvGateAckId < 0 then
    match created with
    | some id =>
      { gate with
        recvGateAckId := id
        readers := gate.readers ++ [⟨opening, -1, .created⟩] }
    | none => gate
  else gate

/-- `connect_to_gate` from the return of `connect` on. -/
def connectEnd (gate : Gate) (sock opening : Nat) (rc : Int) (created : Option Int) : Gate :=
  if 0 ≤ rc then
    { gate with
      fd := sock
      connection := some opening
      connecting := none }.createRecvGateAckThread opening created
  else
    { gate with
      descriptors := release gate.descriptors sock
      connecting := none }

/-- A reader moves on. -/
def setReader (gate : Gate) (slot : Nat) (reader : Reader) : Gate :=
  { gate with readers := gate.readers.set slot reader }

/-- A reader resets `fd`. -/
def reset (gate : Gate) (reader : Reader) : Gate :=
  { gate with
    fd := -1
    connection := none
    strayReset := gate.strayReset || gate.connection ≠ some reader.own }

/-- A reader closes its copy of the descriptor. -/
def close (gate : Gate) (reader : Reader) : Gate :=
  { gate with
    descriptors :=
      if 0 ≤ reader.netfd then release gate.descriptors reader.netfd.toNat else gate.descriptors
    strayClose := gate.strayClose ||
      !(0 ≤ reader.netfd ∧ opening gate.descriptors reader.netfd.toNat = some reader.own) }

/-- A round of the loop of `recv_gate_ack_thread`. -/
def round (gate : Gate) (slot : Nat) (reader : Reader) (selected : Selected) : Gate :=
  if reader.leaves gate.fd selected then
    if 0 < reader.netfd ∧ selected = .failed then
      (gate.reset reader).setReader slot { reader with phase := .closing }
    else gate.setReader slot { reader with phase := .pausing }
  else gate

end Gate

/-- A step of one of the threads. -/
inductive GateStep where
  | setGateIp (ip : BitVec 32)
  | connectBegin (socketOk : Bool)
  | connectEnd (rc : Int) (created : Option Int)
  /-- The reader takes its copy of the descriptor. -/
  | take (slot : Nat)
  | round (slot : Nat) (selected : Selected)
  /-- The reader closes the descriptor after a failed `select`. -/
  | close (slot : Nat)
  /-- The pause is over. -/
  | finish (slot : Nat)
  /-- The reader is not registered any more. -/
  | exit (slot : Nat)

namespace Gate

/-- The step of a reader that is in the phase. -/
def atPhase (gate : Gate) (slot : Nat) (phase : ReaderPhase) (next : Reader → Option Gate) :
    Option Gate :=
  match gate.readers[slot]? with
  | some reader => if reader.phase = phase then next reader else none
  | none => none

/-- A section that needs the mutex. -/
def locked (gate : Gate) (next : Gate) : Option Gate :=
  if gate.connecting = none then some next else none

/-- What a step does, none where it has to wait. -/
def step (gate : Gate) : GateStep → Option Gate
  | .setGateIp ip => gate.locked (gate.setGateIp ip)
  | .connectBegin socketOk => gate.locked (gate.connectBegin socketOk)
  | .connectEnd rc created =>
    match gate.connecting with
    | some (sock, opening) => some (gate.connectEnd sock opening rc created)
    | none => none
  | .take slot => gate.atPhase slot .created fun reader =>
    gate.locked (gate.setReader slot { reader with netfd := gate.fd, phase := .looping })
  | .round slot selected => gate.atPhase slot .looping fun reader =>
    -- Only the section of a failed `select` needs the mutex.
    if selected = .failed then gate.locked (gate.round slot reader selected)
    else some (gate.round slot reader selected)
  | .close slot => gate.atPhase slot .closing fun reader =>
    some ((gate.close reader).setReader slot { reader with phase := .pausing })
  | .finish slot => gate.atPhase slot .pausing fun reader =>
    gate.locked (((gate.reset reader).close reader).setReader slot { reader with phase := .ending })
  | .exit slot => gate.atPhase slot .ending fun _ =>
    some { gate with recvGateAckId := -1, readers := gate.readers.eraseIdx slot }

end Gate

/-! ### What the connection is to be -/

/-- The reader reads the descriptor, or is about to take it. -/
def Reader.Reads (reader : Reader) (fd : Int) : Prop :=
  reader.phase = .created ∨ reader.netfd = fd ∧ reader.phase = .looping

/-- The reader reads the descriptor, or saw it fail and has to close it after the pause. -/
def Reader.Keeps (reader : Reader) (fd : Int) : Prop :=
  reader.Reads fd ∨ reader.netfd = fd ∧ reader.phase = .pausing

/-- Readers close and reset only what is their own, and a connection is open and has a
reader. -/
structure Gate.Owned (served : Reader → Int → Prop) (gate : Gate) : Prop where
  closes : gate.strayClose = false
  resets : gate.strayReset = false
  connection : gate.connecting = none → 0 < gate.fd →
    opening gate.descriptors gate.fd.toNat ≠ none ∧ ∃ reader ∈ gate.readers, served reader gate.fd

/-- The address is not changed in the pause of a reader. No connection is made while a reader is
at its end, and where there is none one is started. A reader finds a connection when it starts,
and leaves its loop only when a receive fails on its own one. -/
def Gate.Orderly (gate : Gate) : GateStep → Prop
  | .setGateIp _ => 0 < gate.fd → ∀ reader ∈ gate.readers, reader.phase ≠ .pausing
  | .connectEnd rc created => 0 ≤ rc →
    (∀ reader ∈ gate.readers, reader.phase ≠ .ending) ∧
      (gate.recvGateAckId < 0 → created.any (fun id => 0 ≤ id) = true)
  | .take _ => 0 < gate.fd
  | .round slot selected => ∀ reader ∈ gate.readers[slot]?,
    reader.leaves gate.fd selected = true →
      selected.lost = true ∧ gate.connection = some reader.own
  | _ => True

instance (gate : Gate) (label : GateStep) : Decidable (gate.Orderly label) :=
  match label with
  | .setGateIp _ => inferInstanceAs (Decidable (0 < gate.fd → _))
  | .connectBegin _ => inferInstanceAs (Decidable True)
  | .connectEnd rc _ => inferInstanceAs (Decidable (0 ≤ rc → _ ∧ _))
  | .take _ => inferInstanceAs (Decidable (0 < gate.fd))
  | .round slot _ => inferInstanceAs (Decidable (∀ reader ∈ gate.readers[slot]?, _ = true → _ ∧ _))
  | .close _ => inferInstanceAs (Decidable True)
  | .finish _ => inferInstanceAs (Decidable True)
  | .exit _ => inferInstanceAs (Decidable True)

/-- A receive fails for good. -/
def GateStep.loses : GateStep → Bool
  | .round _ selected => selected.lost
  | _ => false

/-! ### Why the number stays the same -/

/-- The number stands for the opening, and all lower ones are taken. -/
structure Live (descriptors : List (Option Nat)) (number serial : Nat) : Prop where
  positive : 0 < number
  stands : opening descriptors number = some serial
  taken : ∀ lower < number, opening descriptors lower ≠ none

theorem live_acquire {descriptors : List (Option Nat)} (serial : Nat)
    (positive : 0 < lowestFree descriptors) :
    Live (acquire descriptors serial) (lowestFree descriptors) serial := by
  refine ⟨positive, opening_acquire_self descriptors serial, fun lower below => ?_⟩
  rw [opening_acquire_other descriptors serial (Nat.ne_of_lt below)]
  exact opening_below below

/-- The number is the next one when it is given back. -/
theorem Live.lowestFree_release {descriptors : List (Option Nat)} {number serial : Nat}
    (live : Live descriptors number serial) :
    lowestFree (release descriptors number) = number := by
  refine lowestFree_eq (opening_release_self descriptors number) fun lower below => ?_
  rw [opening_release_other descriptors (Nat.ne_of_lt below)]
  exact live.taken lower below

/-- The number of the connection, or the one that it will have. -/
def Gate.place (gate : Gate) : Nat :=
  match gate.connecting with
  | some (sock, _) => sock
  | none => if 0 < gate.fd then gate.fd.toNat else lowestFree gate.descriptors

/-- What holds of the only reader, by where it is. -/
def Reader.Fits (reader : Reader) (gate : Gate) : Prop :=
  match reader.phase with
  | .created => True
  | .looping => 0 < reader.netfd ∧ reader.netfd = gate.place
  | .closing => False
  | .pausing => gate.connection = some reader.own ∧ gate.fd = reader.netfd
  | .ending => gate.connection = none

/-- There is one reader, and it is registered, or there is none and no connection. -/
def Gate.Read (gate : Gate) : Prop :=
  gate.readers = [] ∧ gate.recvGateAckId < 0 ∧ gate.connection = none ∨
    ∃ reader : Reader, gate.readers = [reader] ∧ 0 ≤ gate.recvGateAckId ∧ reader.Fits gate

/-- What holds between two steps. -/
structure Gate.Sound (gate : Gate) : Prop where
  closes : gate.strayClose = false
  resets : gate.strayReset = false
  pending : ∀ sock serial, gate.connecting = some (sock, serial) →
    gate.connection = none ∧ Live gate.descriptors sock serial
  current : ∀ serial, gate.connection = some serial →
    ∃ number : Nat, gate.fd = number ∧ Live gate.descriptors number serial
  idle : gate.connection = none → gate.fd ≤ 0
  read : gate.Read

namespace Gate

theorem sound_start (files : List Bool) : (start files).Sound where
  closes := rfl
  resets := rfl
  pending _ _ connecting := by cases connecting
  current _ connection := by cases connection
  idle _ := (by decide : (-1 : Int) ≤ 0)
  read := .inl ⟨rfl, (by decide : (-1 : Int) < 0), rfl⟩

theorem place_of_connecting {gate : Gate} {sock serial : Nat}
    (connecting : gate.connecting = some (sock, serial)) : gate.place = sock := by
  unfold place
  rw [connecting]

theorem place_of_fd {gate : Gate} (free : gate.connecting = none) {number : Nat}
    (fd : gate.fd = number) (positive : 0 < number) : gate.place = number := by
  unfold place
  rw [free, fd]
  exact if_pos (Int.natCast_pos.mpr positive)

theorem place_of_idle {gate : Gate} (free : gate.connecting = none) (idle : gate.fd ≤ 0) :
    gate.place = lowestFree gate.descriptors := by
  unfold place
  rw [free]
  exact if_neg (Int.not_lt.mpr idle)

namespace Sound

variable {gate : Gate}

theorem connected (sound : gate.Sound) (positive : 0 < gate.fd) :
    ∃ (serial number : Nat), gate.connection = some serial ∧ gate.fd = number ∧
      Live gate.descriptors number serial := by
  cases connection : gate.connection with
  | none => exact absurd positive (Int.not_lt.mpr (sound.idle connection))
  | some serial =>
    obtain ⟨number, fd, live⟩ := sound.current serial connection
    exact ⟨serial, number, rfl, fd, live⟩

theorem unconnected (sound : gate.Sound) (idle : ¬0 < gate.fd) : gate.connection = none := by
  cases connection : gate.connection with
  | none => rfl
  | some serial =>
    obtain ⟨number, fd, live⟩ := sound.current serial connection
    have positive := live.positive
    omega

/-- A reader that takes a step is the only one. -/
theorem only (sound : gate.Sound) {slot : Nat} {reader : Reader}
    (found : gate.readers[slot]? = some reader) :
    slot = 0 ∧ gate.readers = [reader] ∧ 0 ≤ gate.recvGateAckId ∧ reader.Fits gate := by
  rcases sound.read with ⟨empty, -, -⟩ | ⟨only, single, registered, fits⟩
  · rw [empty] at found
    cases found
  · rw [single] at found
    cases slot with
    | zero =>
      cases found
      exact ⟨rfl, single, registered, fits⟩
    | succ slot => cases found

/-- While there is a connection nobody connects. -/
theorem free_of_connection (sound : gate.Sound) {serial : Nat}
    (connection : gate.connection = some serial) : gate.connecting = none := by
  cases connecting : gate.connecting with
  | none => rfl
  | some pending =>
    have none := (sound.pending pending.1 pending.2 connecting).1
    cases none.symm.trans connection

end Sound

/-- The reader stays where it is, at the same number, while the connection is closed or made. -/
theorem fits_of_place {gate after : Gate} {reader : Reader} (fits : reader.Fits gate)
    (place : 0 < gate.place → after.place = gate.place) (running : reader.phase ≠ .pausing)
    (unfinished : reader.phase = .ending → after.connection = none) : reader.Fits after := by
  unfold Reader.Fits at fits ⊢
  cases phase : reader.phase with
  | created => trivial
  | looping =>
    rw [phase] at fits
    obtain ⟨positive, here⟩ := fits
    exact ⟨positive, by rw [place (by omega)]; exact here⟩
  | closing =>
    rw [phase] at fits
    exact fits
  | pausing => exact absurd phase running
  | ending => exact unfinished phase

/-- In the pause of a reader there is a connection. -/
theorem not_pausing {gate : Gate} {reader : Reader} (none : gate.connection = none)
    (fits : reader.Fits gate) : reader.phase ≠ .pausing := by
  intro phase
  unfold Reader.Fits at fits
  rw [phase] at fits
  cases none.symm.trans fits.1

/-- The readers are the same as before. -/
theorem Read.of_kept {gate after : Gate} (read : gate.Read) (readers : after.readers = gate.readers)
    (id : after.recvGateAckId = gate.recvGateAckId)
    (none : gate.readers = [] → after.connection = none)
    (fits : ∀ reader ∈ gate.readers, reader.Fits gate → reader.Fits after) : after.Read := by
  unfold Read
  rw [readers, id]
  rcases read with ⟨empty, unregistered, -⟩ | ⟨reader, single, registered, fit⟩
  · exact .inl ⟨empty, unregistered, none empty⟩
  · refine .inr ⟨reader, single, registered, fits reader ?_ fit⟩
    rw [single]
    exact .head _

namespace Sound

variable {gate : Gate}

theorem setGateIp (sound : gate.Sound) (ip : BitVec 32) (free : gate.connecting = none)
    (orderly : gate.Orderly (.setGateIp ip)) : (gate.setGateIp ip).Sound := by
  unfold Gate.setGateIp
  split
  · rename_i positive
    obtain ⟨serial, number, connection, fd, live⟩ := sound.connected positive
    have number : gate.fd.toNat = number := by omega
    have place : { gate with
        descriptors := release gate.descriptors gate.fd.toNat
        fd := -1
        connection := none
        gateaddr := ip }.place = gate.place := by
      rw [place_of_fd free fd live.positive, number]
      refine Eq.trans (place_of_idle ?_ ?_) live.lowestFree_release
      · exact free
      · exact (by decide : (-1 : Int) ≤ 0)
    refine ⟨sound.closes, sound.resets, fun _ _ connecting => ?_, fun _ connected => ?_,
      fun _ => (by decide : (-1 : Int) ≤ 0), ?_⟩
    · cases free.symm.trans connecting
    · cases connected
    · refine sound.read.of_kept rfl rfl (fun _ => rfl) fun reader member fits => ?_
      exact fits_of_place fits (fun _ => place) (orderly positive reader member) fun _ => rfl
  · exact ⟨sound.closes, sound.resets, sound.pending, sound.current, sound.idle, sound.read⟩

theorem connectBegin (sound : gate.Sound) (socketOk : Bool) (free : gate.connecting = none) :
    (gate.connectBegin socketOk).Sound := by
  unfold Gate.connectBegin
  split
  · exact sound
  rename_i idle
  split
  · exact sound
  split
  · have none := sound.unconnected idle
    have next : gate.place = lowestFree gate.descriptors :=
      place_of_idle free (Int.not_lt.mp idle)
    refine ⟨sound.closes, sound.resets, fun sock serial connecting => ?_,
      fun serial connected => ?_, sound.idle, ?_⟩
    · dsimp only at connecting
      split at connecting
      · rename_i positive
        cases connecting
        exact ⟨none, live_acquire gate.opened positive⟩
      · cases connecting
    · cases none.symm.trans connected
    · refine sound.read.of_kept rfl rfl (fun _ => none) fun reader member fits => ?_
      refine fits_of_place fits (fun positive => ?_) (not_pausing none fits) fun _ => none
      rw [next] at positive ⊢
      exact place_of_connecting (if_pos positive)
  · exact sound

/-- The connection is made. A reader is started for it, or the one there is goes on with it. -/
theorem created (sound : gate.Sound) {sock serial : Nat} (live : Live gate.descriptors sock serial)
    (created : Option Int) (closed : gate.connection = none) (here : gate.place = sock)
    (orderly : (∀ reader ∈ gate.readers, reader.phase ≠ .ending) ∧
      (gate.recvGateAckId < 0 → created.any (fun id => 0 ≤ id) = true)) :
    ({ gate with
      fd := sock
      connection := some serial
      connecting := none }.createRecvGateAckThread serial created).Sound := by
  obtain ⟨unfinished, starts⟩ := orderly
  have connected : ∀ (id : Int) (readers : List Reader),
      { gate with
        fd := sock
        connection := some serial
        connecting := none
        recvGateAckId := id
        readers }.Read →
      { gate with
        fd := sock
        connection := some serial
        connecting := none
        recvGateAckId := id
        readers }.Sound := by
    intro id readers read
    refine ⟨sound.closes, sound.resets, fun _ _ pending => ?_, fun _ same => ?_,
      fun idle => ?_, read⟩
    · cases pending
    · cases same
      exact ⟨sock, rfl, live⟩
    · cases idle
  unfold createRecvGateAckThread
  dsimp only
  rcases sound.read with ⟨empty, unregistered, -⟩ | ⟨reader, single, registered, fits⟩
  · obtain ⟨id, rfl, registered⟩ := (Option.any_eq_true _ _).mp (starts unregistered)
    rw [if_pos unregistered, empty]
    exact connected _ _ (.inr ⟨_, rfl, of_decide_eq_true registered, trivial⟩)
  · rw [if_neg (Int.not_lt.mpr registered)]
    refine connected _ _ (.inr ⟨reader, single, registered, ?_⟩)
    refine fits_of_place fits (fun _ => ?_) (not_pausing closed fits) fun ending => ?_
    · rw [here]
      exact place_of_fd rfl rfl live.positive
    · refine absurd ending (unfinished reader ?_)
      rw [single]
      exact .head _

theorem connectEnd (sound : gate.Sound) {sock serial : Nat} (rc : Int) (created : Option Int)
    (connecting : gate.connecting = some (sock, serial))
    (orderly : gate.Orderly (.connectEnd rc created)) :
    (gate.connectEnd sock serial rc created).Sound := by
  obtain ⟨none, live⟩ := sound.pending sock serial connecting
  have here := place_of_connecting connecting
  unfold Gate.connectEnd
  split
  · rename_i connected
    exact sound.created live created none here (orderly connected)
  · refine ⟨sound.closes, sound.resets, fun _ _ pending => ?_, fun _ connected => ?_,
      sound.idle, ?_⟩
    · cases pending
    · cases none.symm.trans connected
    · refine sound.read.of_kept rfl rfl (fun _ => none) fun reader member fits => ?_
      refine fits_of_place fits (fun positive => ?_) (not_pausing none fits) fun _ => none
      rw [here]
      refine Eq.trans (place_of_idle rfl ?_) live.lowestFree_release
      exact sound.idle none

/-- The only reader moves on, and nothing else changes. -/
theorem setReader (sound : gate.Sound) {slot : Nat} {reader after : Reader}
    (found : gate.readers[slot]? = some reader)
    (fits : reader.Fits gate → after.Fits gate) : (gate.setReader slot after).Sound := by
  refine ⟨sound.closes, sound.resets, sound.pending, sound.current, sound.idle, ?_⟩
  obtain ⟨rfl, single, registered, fit⟩ := sound.only found
  refine .inr ⟨after, ?_, registered, fits fit⟩
  unfold Gate.setReader
  dsimp only
  rw [single]
  rfl

theorem take (sound : gate.Sound) {slot : Nat} {reader : Reader}
    (found : gate.readers[slot]? = some reader) (free : gate.connecting = none)
    (positive : 0 < gate.fd) :
    (gate.setReader slot { reader with netfd := gate.fd, phase := .looping }).Sound := by
  obtain ⟨serial, number, -, fd, live⟩ := sound.connected positive
  refine sound.setReader found fun _ => ⟨positive, ?_⟩
  dsimp only
  rw [place_of_fd free fd live.positive, fd]

/-- The reader leaves its loop only with its own connection. -/
theorem round (sound : gate.Sound) {slot : Nat} {reader : Reader} {selected : Selected}
    (found : gate.readers[slot]? = some reader) (looping : reader.phase = .looping)
    (orderly : gate.Orderly (.round slot selected)) : (gate.round slot reader selected).Sound := by
  unfold Gate.round
  split
  · rename_i leaves
    obtain ⟨lost, own⟩ := orderly reader found leaves
    have other : ¬(0 < reader.netfd ∧ selected = .failed) := by
      rintro ⟨-, rfl⟩
      cases lost
    rw [if_neg other]
    refine sound.setReader found fun fits => ⟨own, ?_⟩
    unfold Reader.Fits at fits
    rw [looping] at fits
    obtain ⟨number, fd, live⟩ := sound.current reader.own own
    have here := place_of_fd (sound.free_of_connection own) fd live.positive
    rw [fd, ← here]
    exact fits.2.symm
  · exact sound

/-- After the pause the connection is still that of the reader. -/
theorem finish (sound : gate.Sound) {slot : Nat} {reader : Reader}
    (found : gate.readers[slot]? = some reader) (pausing : reader.phase = .pausing)
    (free : gate.connecting = none) :
    (((gate.reset reader).close reader).setReader slot
      { reader with phase := .ending }).Sound := by
  obtain ⟨rfl, single, registered, fits⟩ := sound.only found
  unfold Reader.Fits at fits
  rw [pausing] at fits
  obtain ⟨own, same⟩ := fits
  obtain ⟨number, fd, live⟩ := sound.current reader.own own
  have netfd : reader.netfd.toNat = number := by omega
  refine ⟨?_, ?_, fun _ _ pending => ?_, fun _ connected => ?_,
    fun _ => (by decide : (-1 : Int) ≤ 0), ?_⟩
  · change (gate.strayClose || !decide (0 ≤ reader.netfd ∧
      opening gate.descriptors reader.netfd.toNat = some reader.own)) = false
    rw [sound.closes, netfd, decide_eq_true ⟨by omega, live.stands⟩]
    rfl
  · change (gate.strayReset || decide (gate.connection ≠ some reader.own)) = false
    rw [sound.resets, own, decide_eq_false (fun differs => differs rfl)]
    rfl
  · cases free.symm.trans pending
  · cases connected
  · refine .inr ⟨{ reader with phase := .ending }, ?_, registered, rfl⟩
    change gate.readers.set 0 _ = _
    rw [single]
    rfl

theorem exit (sound : gate.Sound) {slot : Nat} {reader : Reader}
    (found : gate.readers[slot]? = some reader) (ending : reader.phase = .ending) :
    { gate with recvGateAckId := -1, readers := gate.readers.eraseIdx slot }.Sound := by
  obtain ⟨rfl, single, -, fits⟩ := sound.only found
  unfold Reader.Fits at fits
  rw [ending] at fits
  refine ⟨sound.closes, sound.resets, sound.pending, sound.current, sound.idle, .inl ?_⟩
  refine ⟨?_, (by decide : (-1 : Int) < 0), fits⟩
  dsimp only
  rw [single]
  rfl

end Sound

/-! ### Whole runs -/

theorem of_locked {gate next after : Gate} (taken : gate.locked next = some after) :
    gate.connecting = none ∧ next = after := by
  unfold locked at taken
  split at taken
  · rename_i free
    exact ⟨free, Option.some.inj taken⟩
  · cases taken

theorem of_atPhase {gate after : Gate} {slot : Nat} {phase : ReaderPhase}
    {next : Reader → Option Gate} (taken : gate.atPhase slot phase next = some after) :
    ∃ reader, gate.readers[slot]? = some reader ∧ reader.phase = phase ∧
      next reader = some after := by
  unfold atPhase at taken
  split at taken
  · rename_i reader found
    split at taken
    · rename_i same
      exact ⟨reader, found, same, taken⟩
    · cases taken
  · cases taken

theorem Sound.step {gate after : Gate} {label : GateStep} (sound : gate.Sound)
    (taken : gate.step label = some after) (orderly : gate.Orderly label) : after.Sound := by
  cases label with
  | setGateIp ip =>
    obtain ⟨free, rfl⟩ := of_locked taken
    exact sound.setGateIp ip free orderly
  | connectBegin socketOk =>
    obtain ⟨free, rfl⟩ := of_locked taken
    exact sound.connectBegin socketOk free
  | connectEnd rc created =>
    simp only [Gate.step] at taken
    split at taken
    · rename_i sock serial connecting
      cases taken
      exact sound.connectEnd rc created connecting orderly
    · cases taken
  | take slot =>
    obtain ⟨reader, found, -, taken⟩ := of_atPhase taken
    obtain ⟨free, rfl⟩ := of_locked taken
    exact sound.take found free orderly
  | round slot selected =>
    obtain ⟨reader, found, looping, taken⟩ := of_atPhase taken
    split at taken
    · obtain ⟨-, rfl⟩ := of_locked taken
      exact sound.round found looping orderly
    · cases taken
      exact sound.round found looping orderly
  | close slot =>
    obtain ⟨reader, found, closing, -⟩ := of_atPhase taken
    obtain ⟨-, -, -, fits⟩ := sound.only found
    unfold Reader.Fits at fits
    rw [closing] at fits
    exact fits.elim
  | finish slot =>
    obtain ⟨reader, found, pausing, taken⟩ := of_atPhase taken
    obtain ⟨free, rfl⟩ := of_locked taken
    exact sound.finish found pausing free
  | exit slot =>
    obtain ⟨reader, found, ending, taken⟩ := of_atPhase taken
    cases taken
    exact sound.exit found ending

/-- A connection is open, and its reader has it. -/
theorem Sound.owned {gate : Gate} (sound : gate.Sound) : gate.Owned Reader.Keeps := by
  refine ⟨sound.closes, sound.resets, fun free positive => ?_⟩
  obtain ⟨serial, number, connection, fd, live⟩ := sound.connected positive
  refine ⟨?_, ?_⟩
  · rw [fd, Int.toNat_natCast, live.stands]
    exact Option.some_ne_none serial
  rcases sound.read with ⟨-, -, closed⟩ | ⟨reader, single, -, fits⟩
  · cases closed.symm.trans connection
  refine ⟨reader, by rw [single]; exact .head _, ?_⟩
  unfold Reader.Fits at fits
  cases phase : reader.phase with
  | created => exact .inl (.inl phase)
  | looping =>
    rw [phase] at fits
    have here := place_of_fd free fd live.positive
    refine .inl (.inr ⟨?_, phase⟩)
    rw [fits.2, here, fd]
  | closing =>
    rw [phase] at fits
    exact fits.elim
  | pausing =>
    rw [phase] at fits
    exact .inr ⟨fits.2.symm, phase⟩
  | ending =>
    rw [phase] at fits
    cases fits.symm.trans connection

/-- Every reader is in its loop, or about to enter it. -/
def Busy (gate : Gate) : Prop :=
  ∀ reader ∈ gate.readers, reader.phase = .created ∨ reader.phase = .looping

theorem Owned.of_busy {gate : Gate} (owned : gate.Owned Reader.Keeps) (busy : gate.Busy) :
    gate.Owned Reader.Reads := by
  refine ⟨owned.closes, owned.resets, fun free positive => ?_⟩
  obtain ⟨stands, reader, member, keeps⟩ := owned.connection free positive
  refine ⟨stands, reader, member, keeps.resolve_right fun pausing => ?_⟩
  rcases busy reader member with created | looping
  · cases created.symm.trans pausing.2
  · cases looping.symm.trans pausing.2

theorem Busy.not_left {gate : Gate} {slot : Nat} {reader : Reader} (busy : gate.Busy)
    (found : gate.readers[slot]? = some reader)
    (left : ¬(reader.phase = .created ∨ reader.phase = .looping)) : False :=
  left (busy reader (List.mem_of_getElem? found))

theorem setGateIp_readers (gate : Gate) (ip : BitVec 32) :
    (gate.setGateIp ip).readers = gate.readers := by
  unfold setGateIp
  split <;> rfl

theorem connectBegin_readers (gate : Gate) (socketOk : Bool) :
    (gate.connectBegin socketOk).readers = gate.readers := by
  unfold connectBegin
  split
  · rfl
  split
  · rfl
  split <;> rfl

/-- A reader that is started is about to enter its loop. -/
theorem Busy.connectEnd {gate : Gate} (busy : gate.Busy) (sock serial : Nat) (rc : Int)
    (created : Option Int) : (gate.connectEnd sock serial rc created).Busy := by
  unfold Gate.connectEnd createRecvGateAckThread
  split
  · split
    · split
      · intro reader member
        rcases List.mem_append.mp member with member | member
        · exact busy reader member
        · rw [List.mem_singleton.mp member]
          exact .inl rfl
      · exact busy
    · exact busy
  · exact busy

/-- A round that no receive fails in leaves everything as it is. -/
theorem round_of_kept {gate : Gate} {slot : Nat} {reader : Reader} {selected : Selected}
    (found : gate.readers[slot]? = some reader) (orderly : gate.Orderly (.round slot selected))
    (kept : selected.lost = false) : gate.round slot reader selected = gate := by
  unfold round
  refine if_neg fun leaves => ?_
  have lost := (orderly reader found leaves).1
  cases kept.symm.trans lost

/-- Without a failed receive no reader leaves its loop. -/
theorem Busy.step {gate after : Gate} {label : GateStep} (busy : gate.Busy)
    (taken : gate.step label = some after) (orderly : gate.Orderly label)
    (kept : label.loses = false) : after.Busy := by
  cases label with
  | setGateIp ip =>
    obtain ⟨-, rfl⟩ := of_locked taken
    unfold Busy
    rw [setGateIp_readers]
    exact busy
  | connectBegin socketOk =>
    obtain ⟨-, rfl⟩ := of_locked taken
    unfold Busy
    rw [connectBegin_readers]
    exact busy
  | connectEnd rc created =>
    simp only [Gate.step] at taken
    split at taken
    · cases taken
      exact busy.connectEnd _ _ rc created
    · cases taken
  | take slot =>
    obtain ⟨reader, -, -, taken⟩ := of_atPhase taken
    obtain ⟨-, rfl⟩ := of_locked taken
    intro other member
    rcases List.mem_or_eq_of_mem_set member with member | rfl
    · exact busy other member
    · exact .inr rfl
  | round slot selected =>
    obtain ⟨reader, found, -, taken⟩ := of_atPhase taken
    rw [round_of_kept found orderly kept] at taken
    split at taken
    · obtain ⟨-, rfl⟩ := of_locked taken
      exact busy
    · cases taken
      exact busy
  | close slot =>
    obtain ⟨reader, found, phase, -⟩ := of_atPhase taken
    exact (busy.not_left found (by rw [phase]; decide)).elim
  | finish slot =>
    obtain ⟨reader, found, phase, -⟩ := of_atPhase taken
    exact (busy.not_left found (by rw [phase]; decide)).elim
  | exit slot =>
    obtain ⟨reader, found, phase, -⟩ := of_atPhase taken
    exact (busy.not_left found (by rw [phase]; decide)).elim

end Gate

/-- In every orderly run readers close and reset only what is their own, and a connection is
open and has a reader. As long as no receive fails, the reader of a connection reads it. -/
theorem gate_owned {files : List Bool} {labels : List GateStep} {gate : Gate}
    (run : Runs (fun before label after => before.step label = some after ∧ before.Orderly label)
      (.start files) labels gate) :
    gate.Owned Reader.Keeps ∧
      ((∀ label ∈ labels, label.loses = false) → gate.Owned Reader.Reads) := by
  have sound := run.invariant (Gate.sound_start files) fun before label after taken sound =>
    sound.step taken.1 taken.2
  refine ⟨sound.owned, fun kept => sound.owned.of_busy ?_⟩
  clear sound
  induction run with
  | nil => exact fun reader member => by cases member
  | snoc _ taken inductionHypothesis =>
    refine (inductionHypothesis fun label member => kept label (List.mem_append_left _ member)).step
      taken.1 taken.2 ?_
    exact kept _ (List.mem_append_right _ (.head _))

/-- A gateway is set and connected to, its reader enters the loop, and something is received. -/
def connected : List GateStep :=
  [.setGateIp 0x0A000001, .connectBegin true, .connectEnd 0 (some 7), .take 0,
    .round 0 (.received 64)]

/-- Then a receive fails. -/
def connectionLost : List GateStep := connected ++ [.round 0 (.received (-104))]

/-- The reader gives the connection up after its pause, and the next one has a reader again. -/
def connectedAgain : List GateStep :=
  connectionLost ++
    [.finish 0, .exit 0, .connectBegin true, .connectEnd 0 (some 8), .take 0]

/-- The reader of the first connection reads it. After the loss the device comes back to its
gateway with the same descriptor. -/
theorem gate_owned_again :
    (∃ gate, Runs
        (fun before label after => before.step label = some after ∧ before.Orderly label)
        (Gate.start [true, true, true]) connected gate ∧
      (gate.fd = 3 ∧ gate.connection = some 1) ∧ gate.Owned Reader.Keeps ∧
        gate.Owned Reader.Reads) ∧
    ∃ gate, Runs
        (fun before label after => before.step label = some after ∧ before.Orderly label)
        (Gate.start [true, true, true]) connectedAgain gate ∧
      (gate.fd = 3 ∧ gate.connection = some 2) ∧ gate.Owned Reader.Keeps := by
  have first : (connected.foldlM (fun (before : Gate) label =>
      if before.Orderly label then before.step label else none)
      (.start [true, true, true])).any
        (fun gate => gate.fd = 3 ∧ gate.connection = some 1) = true := by
    decide +kernel
  have again : (connectedAgain.foldlM (fun (before : Gate) label =>
      if before.Orderly label then before.step label else none)
      (.start [true, true, true])).any
        (fun gate => gate.fd = 3 ∧ gate.connection = some 2) = true := by
    decide +kernel
  obtain ⟨gate, run, found⟩ := Runs.of_any_guarded first
  obtain ⟨later, longer, back⟩ := Runs.of_any_guarded again
  have owned := gate_owned run
  exact ⟨⟨gate, run, of_decide_eq_true found, owned.1, owned.2 (by decide)⟩,
    later, longer, of_decide_eq_true back, (gate_owned longer).1⟩

/-- The address is changed in the pause of the reader, and the next connection is given the
descriptor that the reader then closes. -/
def addressChanged : List GateStep :=
  connectionLost ++
    [.setGateIp 0x0A000002, .connectBegin true, .connectEnd 0 (some 8), .finish 0]

theorem successor_closed :
    ¬∀ (files : List Bool) (labels : List GateStep) (gate : Gate),
      Runs (fun before label after => before.step label = some after) (Gate.start files) labels
        gate → gate.Owned Reader.Keeps := by
  intro claimed
  have evaluated : (addressChanged.foldlM Gate.step (.start [true, true, true])).any
      Gate.strayClose = true := by
    decide +kernel
  obtain ⟨gate, run, stray⟩ := Runs.of_any evaluated
  have owned := claimed _ _ _ run
  cases owned.closes.symm.trans stray

end ExmOnvif.Ipmain
