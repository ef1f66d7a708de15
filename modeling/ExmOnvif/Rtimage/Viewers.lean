/-
This file models the viewers of the image server: the slots, the two counters, and the
ways a viewer comes and goes. A thread for each slot accepts a viewer, and the platform
has the device connect to a viewer.

The flag `used` of a slot is set before the accept and cleared again when the connection
is initialised, so a slot with an accepted viewer looks free to the other way in. That way
sets the flag first, and leaves it set, with the counter, on most of its failures.
-/

import Mathlib.Data.List.Basic
import Mathlib.Logic.Function.Basic
import ExmOnvif.Library.Runs

namespace ExmOnvif.Rtimage

open Library

/-! ### The slots and the counters -/

/-- An `in_addr_t`. -/
abbrev Addr := BitVec 32

/-- The settings of the server, which do not change. -/
structure Net where
  eth0Addr : Addr
  eth0Mask : Addr
  eth1Addr : Addr
  eth1Mask : Addr
  /-- `get_eth_num`. -/
  ethNum : Int
  maxLanUsrs : Nat
  maxWanUsrs : Nat

namespace Net

/-- The number of slots: one more than there can be viewers. -/
def total (net : Net) : Nat := net.maxLanUsrs + net.maxWanUsrs + 1

/-- `is_lan_user`. -/
def isLanUser (net : Net) (addr : Addr) : Bool :=
  if net.eth0Addr &&& net.eth0Mask = net.eth0Mask &&& addr then true
  else if 1 < net.ethNum ∧ net.eth1Addr &&& net.eth1Mask = net.eth1Mask &&& addr then true
  else false

end Net

/-- `av_usr_t`, as far as the connections are concerned. -/
structure Usr where
  used : Int
  fd : Int
  addr : Addr
  servStat : Int
  vencNo : Int
  aencNo : Int
  streamIdx : Int
  /-- Whether `u_mutex` is locked. -/
  uMutex : Bool
deriving DecidableEq, Repr

/-- A slot after `init_net_avstream`. -/
def Usr.start : Usr := ⟨0, -1, 0, 0, 0, 0, 0, false⟩

/-- `init_av_usr_info`, which makes the lock anew. -/
def initAvUsrInfo (_ : Usr) : Usr := ⟨0, -1, 0, 0, -1, -1, -1, false⟩

/-- The counters and the slots. -/
structure Server where
  lanUsrs : Int
  wanUsrs : Int
  usr : Nat → Usr

namespace Server

variable (net : Net)

def start : Server := ⟨0, 0, fun _ => .start⟩

def setUsr (server : Server) (slot : Nat) (usr : Usr) : Server :=
  { server with usr := Function.update server.usr slot usr }

/-- `get_free_usr`. -/
def getFreeUsr (server : Server) : Option Nat :=
  (List.range net.total).find? fun slot => (server.usr slot).used = 0

/-- The counting in `add_av_usr_list`: whether there is room for a viewer. -/
def hasRoom (server : Server) (guest : Addr) : Bool :=
  if net.isLanUser guest then server.lanUsrs + 1 ≤ net.maxLanUsrs
  else server.wanUsrs + 1 ≤ net.maxWanUsrs

/-- `add_av_usr_list`, with what it returns: 1 when the device is busy. -/
def addAvUsrList (server : Server) (slot : Nat) (guest : Addr) : Server × Int :=
  if server.hasRoom net guest then
    let usr := { server.usr slot with addr := guest }
    if net.isLanUser guest then
      ({ server with lanUsrs := server.lanUsrs + 1 }.setUsr slot usr, 0)
    else ({ server with wanUsrs := server.wanUsrs + 1 }.setUsr slot usr, 0)
  else (server, 1)

/-- `del_av_usr_list`. It does not return when the lock of the slot is held. -/
def delAvUsrList (server : Server) (slot : Nat) : Option Server :=
  let usr := server.usr slot
  if usr.uMutex then none
  else
    let cleared := { usr with
      servStat := 0, fd := -1, vencNo := -1, aencNo := -1, streamIdx := -1, used := 0, addr := 0 }
    if net.isLanUser usr.addr then
      some ({ server with lanUsrs := server.lanUsrs - 1 }.setUsr slot cleared)
    else some ({ server with wanUsrs := server.wanUsrs - 1 }.setUsr slot cleared)

end Server

/-! ### The platform has the device connect -/

/-- `usr_req_rt_img_struct`. -/
structure Request where
  remoteip : Addr
  channel : Int
  streamIdx : Int
  audioFlag : Int

/-- What a call of `rtnet_av_connect2gate` meets. -/
structure Outcome where
  /-- What `tcp_connect_block` returns. -/
  fd : Int
  /-- Whether `netsend_streamid` succeeds. -/
  sent : Bool
  /-- Whether `get_venc_stat` returns `ENC_STAT_OK`. -/
  encOk : Bool
  /-- `get_audio_num`. -/
  audioNum : Int

/-- What `rtnet_av_connect2gate` answers. -/
inductive Answer where
  /-- `ERR_DVC_BUSY`: there is no free slot. -/
  | full
  /-- `ERR_DVC_BUSY`: there is no room in the counters. -/
  | busy (slot : Nat)
  /-- `ERR_RT_NO_CONN`. -/
  | noConn (slot : Nat)
  /-- The stream id could not be sent; what is returned is zero, from the deletion. -/
  | notSent (slot : Nat)
  /-- `ERR_RT_ENC_NOT_OK`. -/
  | encNotOk (slot : Nat)
  | ok (slot : Nat)
deriving DecidableEq, Repr

/-- The service that a viewer gets once it is connected. -/
def Usr.serve (usr : Usr) (request : Request) (outcome : Outcome) : Usr :=
  if request.audioFlag = 0x55aa ∨ outcome.audioNum ≤ 0 then
    { usr with aencNo := -1, servStat := 1 }
  else { usr with aencNo := request.channel, servStat := 3 }

/-- `rtnet_av_connect2gate`, run without a break. -/
def Server.connect2gate (net : Net) (request : Request) (outcome : Outcome) (server : Server) :
    Option (Server × Answer) :=
  match server.getFreeUsr net with
  | none => some (server, .full)
  | some slot =>
    let server := server.setUsr slot { initAvUsrInfo (server.usr slot) with used := 1 }
    let (server, ret) := server.addAvUsrList net slot request.remoteip
    if ret ≠ 0 then some (server, .busy slot)
    else if outcome.fd < 0 then some (server, .noConn slot)
    else
      let server := server.setUsr slot { server.usr slot with fd := outcome.fd }
      if outcome.sent = false then
        (server.delAvUsrList net slot).map fun after => (after, .notSent slot)
      else
        let usr : Usr :=
          { server.usr slot with vencNo := request.channel, streamIdx := request.streamIdx }
        if usr.servStat ≠ 1 ∧ usr.servStat ≠ 3 ∧ outcome.encOk = false then
          -- The return leaves the lock held.
          some (server.setUsr slot { usr with uMutex := true }, .encNotOk slot)
        else some (server.setUsr slot (usr.serve request outcome), .ok slot)

/-! ### Viewers that come and go one after the other -/

/-- A connection, on its slot: accepted, or asked for by the platform. -/
structure Conn where
  slot : Nat
  gate : Bool
  addr : Addr
deriving DecidableEq, Repr

/-- The server with the slot whose thread is in `accept` and the connections that are open. -/
structure Viewers where
  server : Server
  listener : Option Nat
  live : List Conn

/-- What happens, each to its end. -/
inductive Visit where
  /-- The thread of a free slot marks it and waits in `accept`. -/
  | listen (slot : Nat)
  | incoming (guest : Addr) (acceptFd : Nat)
  | acceptError
  /-- The thread of a slot finds its connection gone. -/
  | hangUp (slot : Nat)
  | connect (request : Request) (outcome : Outcome)
  /-- `rtnet_av_close_connect`. -/
  | close (slot : Nat)

namespace Viewers

variable (net : Net)

def start : Viewers := ⟨.start, none, []⟩

/-- The connection of a kind on a slot. -/
def conn (viewers : Viewers) (slot : Nat) (gate : Bool) : Option Conn :=
  viewers.live.find? fun conn => conn.slot = slot ∧ conn.gate = gate

/-- The end of a connection. -/
def drop (viewers : Viewers) (slot : Nat) (gate : Bool) : Option Viewers :=
  (viewers.conn slot gate).bind fun conn =>
    (viewers.server.delAvUsrList net slot).map fun server =>
      { viewers with server := server, live := viewers.live.erase conn }

/-- A connection that is accepted, by the thread of the slot that listens. -/
def accept (viewers : Viewers) (slot : Nat) (guest : Addr) (acceptFd : Nat) : Viewers :=
  let server := viewers.server.setUsr slot (initAvUsrInfo (viewers.server.usr slot))
  let (server, ret) := server.addAvUsrList net slot guest
  if ret ≠ 0 then { viewers with server := server, listener := none }
  else
    { server := server.setUsr slot { server.usr slot with fd := acceptFd }
      listener := none
      live := ⟨slot, false, guest⟩ :: viewers.live }

def step (viewers : Viewers) : Visit → Option Viewers
  | .listen slot =>
    let usr := viewers.server.usr slot
    if slot < net.total ∧ viewers.listener = none ∧ viewers.conn slot false = none ∧
        usr.used = 0 ∧ usr.uMutex = false then
      some { viewers with
        server := viewers.server.setUsr slot { usr with used := 1 }, listener := some slot }
    else none
  | .incoming guest acceptFd => viewers.listener.map fun slot =>
    viewers.accept net slot guest acceptFd
  | .acceptError => viewers.listener.map fun _ => { viewers with listener := none }
  | .hangUp slot => viewers.drop net slot false
  | .connect request outcome =>
    (viewers.server.connect2gate net request outcome).map fun done =>
      let after := { viewers with server := done.1 }
      match done.2 with
      | .ok slot | .encNotOk slot =>
        { after with live := ⟨slot, true, request.remoteip⟩ :: viewers.live }
      | _ => after
  | .close slot => viewers.drop net slot true

end Viewers

/-! ### The accounts -/

/-- The counters are the numbers of the connections, each slot without a connection is free
apart from the one that listens, and no lock is left held. -/
structure Viewers.Accounted (net : Net) (viewers : Viewers) : Prop where
  lan : viewers.server.lanUsrs = viewers.live.countP fun conn => net.isLanUser conn.addr
  wan : viewers.server.wanUsrs = viewers.live.countP fun conn => !net.isLanUser conn.addr
  lanWithin : 0 ≤ viewers.server.lanUsrs ∧ viewers.server.lanUsrs ≤ net.maxLanUsrs
  wanWithin : 0 ≤ viewers.server.wanUsrs ∧ viewers.server.wanUsrs ≤ net.maxWanUsrs
  free : ∀ slot < net.total, (∀ conn ∈ viewers.live, conn.slot ≠ slot) →
    viewers.listener ≠ some slot →
      (viewers.server.usr slot).used = 0 ∧ (viewers.server.usr slot).fd = -1
  unlocked : ∀ slot < net.total, (viewers.server.usr slot).uMutex = false

/-- What keeps the accounts: no accept fails, and a connection that the platform asks for finds
all slots in use, or finds a slot without an accepted viewer and room in the counters, is made,
and finds the encoder working unless its stream id cannot be sent. -/
def Viewers.clean (net : Net) (viewers : Viewers) : Visit → Bool
  | .acceptError => false
  | .connect request outcome => (viewers.server.getFreeUsr net).all fun slot =>
    (viewers.conn slot false).isNone && viewers.server.hasRoom net request.remoteip &&
      decide (0 ≤ outcome.fd) && (!outcome.sent || outcome.encOk)
  | _ => true

/-- What the accounts need to be kept: the slot of a connection carries its address, and is
marked when the platform asked for it. -/
structure Viewers.Sound (net : Net) (viewers : Viewers) : Prop where
  lan : viewers.server.lanUsrs = viewers.live.countP fun conn => net.isLanUser conn.addr
  wan : viewers.server.wanUsrs = viewers.live.countP fun conn => !net.isLanUser conn.addr
  lanMost : viewers.server.lanUsrs ≤ net.maxLanUsrs
  wanMost : viewers.server.wanUsrs ≤ net.maxWanUsrs
  apart : (viewers.live.map Conn.slot).Nodup
  bound : ∀ conn ∈ viewers.live, (viewers.server.usr conn.slot).addr = conn.addr ∧
    (conn.gate = true → (viewers.server.usr conn.slot).used = 1)
  listening : ∀ slot, viewers.listener = some slot → (∀ conn ∈ viewers.live, conn.slot ≠ slot) ∧
    (viewers.server.usr slot).used = 1
  free : ∀ slot, (∀ conn ∈ viewers.live, conn.slot ≠ slot) → viewers.listener ≠ some slot →
    (viewers.server.usr slot).used = 0 ∧ (viewers.server.usr slot).fd = -1
  unlocked : ∀ slot, (viewers.server.usr slot).uMutex = false

theorem Viewers.Sound.accounted {net : Net} {viewers : Viewers} (sound : viewers.Sound net) :
    viewers.Accounted net where
  lan := sound.lan
  wan := sound.wan
  lanWithin := ⟨by rw [sound.lan]; omega, sound.lanMost⟩
  wanWithin := ⟨by rw [sound.wan]; omega, sound.wanMost⟩
  free := fun slot _ => sound.free slot
  unlocked := fun slot _ => sound.unlocked slot

/-- A change of the counter that a viewer belongs to. -/
def Server.count (net : Net) (guest : Addr) (change : Int) (server : Server) : Server :=
  if net.isLanUser guest then { server with lanUsrs := server.lanUsrs + change }
  else { server with wanUsrs := server.wanUsrs + change }

theorem Server.count_usr (net : Net) (guest : Addr) (change : Int) (server : Server) :
    (server.count net guest change).usr = server.usr := by
  unfold Server.count
  split <;> rfl

theorem Server.setUsr_setUsr (server : Server) (slot : Nat) (first second : Usr) :
    (server.setUsr slot first).setUsr slot second = server.setUsr slot second := by
  unfold setUsr
  rw [Function.update_idem]

theorem Server.setUsr_usr_same (server : Server) (slot : Nat) (usr : Usr) :
    (server.setUsr slot usr).usr slot = usr :=
  Function.update_self _ _ _

theorem Server.setUsr_usr_other {slot other : Nat} (server : Server) (apart : other ≠ slot)
    (usr : Usr) : (server.setUsr slot usr).usr other = server.usr other :=
  Function.update_of_ne apart _ _

/-- A viewer is added to a slot that has just been set. -/
theorem Server.addAvUsrList_of_room {net : Net} {server : Server} {guest : Addr}
    (room : server.hasRoom net guest = true) (slot : Nat) (usr : Usr) :
    (server.setUsr slot usr).addAvUsrList net slot guest =
      ((server.count net guest 1).setUsr slot { usr with addr := guest }, 0) := by
  have same : (server.setUsr slot usr).hasRoom net guest = true := room
  unfold addAvUsrList count
  rw [if_pos same, setUsr_usr_same]
  dsimp only
  split
  · exact congrArg (·, 0) (setUsr_setUsr { server with lanUsrs := server.lanUsrs + 1 } slot usr _)
  · exact congrArg (·, 0) (setUsr_setUsr { server with wanUsrs := server.wanUsrs + 1 } slot usr _)

theorem Server.addAvUsrList_of_full {net : Net} {server : Server} {guest : Addr}
    (full : server.hasRoom net guest = false) (slot : Nat) (usr : Usr) :
    (server.setUsr slot usr).addAvUsrList net slot guest = (server.setUsr slot usr, 1) := by
  have same : ¬ (server.setUsr slot usr).hasRoom net guest = true := by
    rw [show (server.setUsr slot usr).hasRoom net guest = false by exact full]
    exact Bool.false_ne_true
  unfold addAvUsrList
  rw [if_neg same]

theorem Server.delAvUsrList_of_unlocked {net : Net} {server : Server} {slot : Nat}
    (unlocked : (server.usr slot).uMutex = false) :
    server.delAvUsrList net slot =
      some ((server.count net (server.usr slot).addr (-1)).setUsr slot
        ⟨0, -1, 0, 0, -1, -1, -1, false⟩) := by
  unfold delAvUsrList count
  dsimp only
  rw [unlocked, if_neg Bool.false_ne_true]
  split <;> rfl

theorem Server.setUsr_unlocked {server : Server} {usr : Usr} (slot : Nat)
    (others : ∀ other, (server.usr other).uMutex = false) (unlocked : usr.uMutex = false)
    (other : Nat) : ((server.setUsr slot usr).usr other).uMutex = false := by
  by_cases same : other = slot
  · rw [same, setUsr_usr_same]
    exact unlocked
  · rw [setUsr_usr_other server same]
    exact others other

/-- The counters are the numbers of the connections and keep their limits. -/
structure Server.Counts (net : Net) (server : Server) (live : List Conn) : Prop where
  lan : server.lanUsrs = live.countP fun conn => net.isLanUser conn.addr
  wan : server.wanUsrs = live.countP fun conn => !net.isLanUser conn.addr
  lanMost : server.lanUsrs ≤ net.maxLanUsrs
  wanMost : server.wanUsrs ≤ net.maxWanUsrs

namespace Server.Counts

variable {net : Net} {server : Server} {live : List Conn} {conn : Conn}

theorem join (counts : server.Counts net live) (room : server.hasRoom net conn.addr = true) :
    (server.count net conn.addr 1).Counts net (conn :: live) := by
  obtain ⟨lan, wan, lanMost, wanMost⟩ := counts
  unfold hasRoom at room
  unfold count
  by_cases inside : net.isLanUser conn.addr = true
  · rw [if_pos inside, decide_eq_true_eq] at room
    rw [if_pos inside]
    constructor <;>
      simp only [List.countP_cons, inside, if_true, Bool.not_true, Bool.false_eq_true, if_false] <;>
      omega
  · rw [if_neg inside, decide_eq_true_eq] at room
    rw [if_neg inside]
    constructor <;>
      simp only [List.countP_cons, inside, Bool.false_eq_true, if_false, Bool.not_false,
        if_true] <;>
      omega

theorem part (counts : server.Counts net (conn :: live)) :
    (server.count net conn.addr (-1)).Counts net live := by
  obtain ⟨lan, wan, lanMost, wanMost⟩ := counts
  rw [List.countP_cons] at lan wan
  unfold count
  by_cases inside : net.isLanUser conn.addr = true
  · rw [if_pos inside]
    simp only [inside, if_true, Bool.not_true, Bool.false_eq_true, if_false] at lan wan
    constructor <;> dsimp only <;> omega
  · rw [if_neg inside]
    simp only [inside, Bool.false_eq_true, if_false, Bool.not_false, if_true] at lan wan
    constructor <;> dsimp only <;> omega

theorem perm {other : List Conn} (counts : server.Counts net live) (same : live.Perm other) :
    server.Counts net other := by
  obtain ⟨lan, wan, lanMost, wanMost⟩ := counts
  rw [same.countP_eq] at lan wan
  exact ⟨lan, wan, lanMost, wanMost⟩

end Server.Counts

namespace Viewers.Sound

variable {net : Net} {viewers : Viewers} {slot : Nat}

theorem counts (sound : viewers.Sound net) : viewers.server.Counts net viewers.live :=
  ⟨sound.lan, sound.wan, sound.lanMost, sound.wanMost⟩

/-- A connection is made on a slot that has none. -/
theorem join (sound : viewers.Sound net) {gate : Bool} {guest : Addr} {usr : Usr}
    {listener : Option Nat} (absent : ∀ conn ∈ viewers.live, conn.slot ≠ slot)
    (room : viewers.server.hasRoom net guest = true) (addr : usr.addr = guest)
    (marked : gate = true → usr.used = 1) (unlocked : usr.uMutex = false)
    (quiet : listener ≠ some slot)
    (others : ∀ other ≠ slot, listener = some other ↔ viewers.listener = some other) :
    Sound net ⟨(viewers.server.count net guest 1).setUsr slot usr, listener,
      ⟨slot, gate, guest⟩ :: viewers.live⟩ := by
  have counted : (viewers.server.count net guest 1).usr = viewers.server.usr :=
    Server.count_usr net guest 1 viewers.server
  have elsewhere : ∀ other ≠ slot, ((viewers.server.count net guest 1).setUsr slot usr).usr other =
      viewers.server.usr other := by
    intro other different
    rw [Server.setUsr_usr_other _ different, counted]
  have here := Server.setUsr_usr_same (viewers.server.count net guest 1) slot usr
  obtain ⟨lan, wan, lanMost, wanMost⟩ :=
    @Server.Counts.join net viewers.server viewers.live ⟨slot, gate, guest⟩ sound.counts room
  refine ⟨lan, wan, lanMost, wanMost, ?_, ?_, ?_, ?_,
    Server.setUsr_unlocked slot (fun other => by rw [counted]; exact sound.unlocked other) unlocked⟩
  · rw [List.map_cons, List.nodup_cons]
    refine ⟨fun member => ?_, sound.apart⟩
    obtain ⟨conn, inside, same⟩ := List.mem_map.mp member
    exact absent conn inside same
  · intro conn member
    rcases List.mem_cons.mp member with rfl | before
    · rw [here]
      exact ⟨addr, marked⟩
    · rw [elsewhere conn.slot (absent conn before)]
      exact sound.bound conn before
  · intro other listens
    have different : other ≠ slot := by
      rintro rfl
      exact quiet listens
    obtain ⟨alone, used⟩ := sound.listening other ((others other different).mp listens)
    rw [elsewhere other different]
    refine ⟨fun conn member => ?_, used⟩
    rcases List.mem_cons.mp member with rfl | before
    · exact different.symm
    · exact alone conn before
  · intro other alone idle
    have different : other ≠ slot := fun same => alone _ List.mem_cons_self same.symm
    rw [elsewhere other different]
    refine sound.free other (fun conn member => alone conn (List.mem_cons_of_mem _ member)) ?_
    exact fun listens => idle ((others other different).mpr listens)

/-- A slot without a connection is set, marked exactly when it listens. -/
theorem vacate (sound : viewers.Sound net) {usr : Usr} {listener : Option Nat}
    (absent : ∀ conn ∈ viewers.live, conn.slot ≠ slot)
    (marked : listener = some slot → usr.used = 1)
    (cleared : listener ≠ some slot → usr.used = 0 ∧ usr.fd = -1) (unlocked : usr.uMutex = false)
    (others : ∀ other ≠ slot, listener = some other ↔ viewers.listener = some other) :
    Sound net ⟨viewers.server.setUsr slot usr, listener, viewers.live⟩ := by
  have elsewhere : ∀ other ≠ slot, (viewers.server.setUsr slot usr).usr other =
      viewers.server.usr other :=
    fun other different => Server.setUsr_usr_other _ different usr
  have here := Server.setUsr_usr_same viewers.server slot usr
  refine ⟨sound.lan, sound.wan, sound.lanMost, sound.wanMost, sound.apart, ?_, ?_, ?_,
    Server.setUsr_unlocked slot sound.unlocked unlocked⟩
  · intro conn member
    rw [elsewhere conn.slot (absent conn member)]
    exact sound.bound conn member
  · intro other listens
    by_cases same : other = slot
    · rw [same] at listens ⊢
      rw [here]
      exact ⟨absent, marked listens⟩
    · rw [elsewhere other same]
      exact sound.listening other ((others other same).mp listens)
  · intro other alone idle
    by_cases same : other = slot
    · rw [same] at idle ⊢
      rw [here]
      exact cleared idle
    · rw [elsewhere other same]
      exact sound.free other alone fun listens => idle ((others other same).mpr listens)

/-- A connection ends. -/
theorem part (sound : viewers.Sound net) {conn : Conn} (member : conn ∈ viewers.live) {usr : Usr}
    (cleared : usr.used = 0 ∧ usr.fd = -1) (unlocked : usr.uMutex = false) :
    Sound net { viewers with
      server := (viewers.server.count net conn.addr (-1)).setUsr conn.slot usr
      live := viewers.live.erase conn } := by
  have elsewhere : ∀ other ≠ conn.slot,
      ((viewers.server.count net conn.addr (-1)).setUsr conn.slot usr).usr other =
        viewers.server.usr other := by
    intro other different
    rw [Server.setUsr_usr_other _ different, Server.count_usr]
  have here := Server.setUsr_usr_same (viewers.server.count net conn.addr (-1)) conn.slot usr
  have order := List.perm_cons_erase member
  obtain ⟨gone, apart⟩ : conn.slot ∉ (viewers.live.erase conn).map Conn.slot ∧
      ((viewers.live.erase conn).map Conn.slot).Nodup := by
    rw [← List.nodup_cons, ← List.map_cons]
    exact (order.map Conn.slot).nodup_iff.mp sound.apart
  have distinct : ∀ other ∈ viewers.live.erase conn, other.slot ≠ conn.slot :=
    fun other inside same => gone (List.mem_map.mpr ⟨other, inside, same⟩)
  obtain ⟨lan, wan, lanMost, wanMost⟩ := (sound.counts.perm order).part
  refine ⟨lan, wan, lanMost, wanMost, apart, ?_, ?_, ?_,
    Server.setUsr_unlocked conn.slot
      (fun other => by rw [Server.count_usr]; exact sound.unlocked other) unlocked⟩
  · intro other inside
    rw [elsewhere other.slot (distinct other inside)]
    exact sound.bound other (List.mem_of_mem_erase inside)
  · intro other listens
    obtain ⟨alone, used⟩ := sound.listening other listens
    rw [elsewhere other (alone conn member).symm]
    exact ⟨fun third inside => alone third (List.mem_of_mem_erase inside), used⟩
  · intro other alone idle
    by_cases same : other = conn.slot
    · rw [same, here]
      exact cleared
    · rw [elsewhere other same]
      refine sound.free other (fun third inside => ?_) idle
      rcases List.mem_cons.mp (order.mem_iff.mp inside) with rfl | later
      · exact fun equal => same equal.symm
      · exact alone third later

/-- The end of a connection. -/
theorem drop {after : Viewers} {gate : Bool} (sound : viewers.Sound net)
    (done : viewers.drop net slot gate = some after) : after.Sound net := by
  unfold Viewers.drop at done
  obtain ⟨conn, found, ended⟩ := Option.bind_eq_some_iff.mp done
  have member := List.mem_of_find?_eq_some found
  have place : conn.slot = slot := by
    have chosen := List.find?_some found
    exact (of_decide_eq_true chosen).1
  subst place
  rw [Server.delAvUsrList_of_unlocked (sound.unlocked conn.slot), Option.map_some,
    (sound.bound conn member).1] at ended
  cases ended
  exact sound.part member ⟨rfl, rfl⟩ rfl

/-- An incoming connection, whether there is room for it or not. -/
theorem accept (sound : viewers.Sound net) (listens : viewers.listener = some slot) (guest : Addr)
    (acceptFd : Nat) : (viewers.accept net slot guest acceptFd).Sound net := by
  obtain ⟨absent, _⟩ := sound.listening slot listens
  have others : ∀ other ≠ slot, none = some other ↔ viewers.listener = some other := by
    intro other different
    rw [listens]
    constructor
    · intro never
      cases never
    · intro same
      exact absurd (Option.some.inj same).symm different
  unfold Viewers.accept
  dsimp only
  cases room : viewers.server.hasRoom net guest with
  | false =>
    rw [Server.addAvUsrList_of_full room]
    exact sound.vacate absent (fun never => by cases never) (fun _ => ⟨rfl, rfl⟩) rfl others
  | true =>
    rw [Server.addAvUsrList_of_room room]
    dsimp only
    rw [Server.setUsr_setUsr, Server.setUsr_usr_same]
    exact sound.join absent room rfl (fun never => by cases never) rfl
      (fun never => by cases never) others

/-- A slot that looks free has no connection, unless an accepted one. -/
theorem absent_of_unused (sound : viewers.Sound net) (unused : (viewers.server.usr slot).used = 0)
    (none : viewers.conn slot false = none) : ∀ conn ∈ viewers.live, conn.slot ≠ slot := by
  rintro conn member rfl
  cases kind : conn.gate with
  | true =>
    rw [(sound.bound conn member).2 kind] at unused
    cases unused
  | false =>
    unfold Viewers.conn at none
    rw [List.find?_eq_none] at none
    exact none conn member (decide_eq_true ⟨rfl, kind⟩)

theorem not_listening_of_unused (sound : viewers.Sound net)
    (unused : (viewers.server.usr slot).used = 0) : viewers.listener ≠ some slot := by
  intro listens
  rw [(sound.listening slot listens).2] at unused
  cases unused

/-- The thread of a free slot begins to listen. -/
theorem listen {after : Viewers} (sound : viewers.Sound net)
    (done : viewers.step net (.listen slot) = some after) : after.Sound net := by
  unfold Viewers.step at done
  dsimp only at done
  split at done
  case isFalse => cases done
  case isTrue free =>
    obtain ⟨_, silent, none, unused, unlocked⟩ := free
    cases done
    refine sound.vacate (sound.absent_of_unused unused none) (fun _ => rfl)
      (fun never => absurd rfl never) unlocked ?_
    intro other different
    rw [silent]
    constructor
    · intro same
      exact absurd (Option.some.inj same).symm different
    · intro never
      cases never

theorem serve_kept (usr : Usr) (request : Request) (outcome : Outcome) :
    (usr.serve request outcome).addr = usr.addr ∧ (usr.serve request outcome).used = usr.used ∧
      (usr.serve request outcome).uMutex = usr.uMutex := by
  unfold Usr.serve
  split <;> exact ⟨rfl, rfl, rfl⟩

/-- A connection that the platform asks for and that keeps the accounts. -/
theorem connect {after : Viewers} {request : Request} {outcome : Outcome}
    (sound : viewers.Sound net) (clean : viewers.clean net (.connect request outcome) = true)
    (done : viewers.step net (.connect request outcome) = some after) : after.Sound net := by
  unfold Viewers.step Server.connect2gate at done
  cases found : viewers.server.getFreeUsr net with
  | none =>
    rw [found] at done
    cases done
    exact sound
  | some slot =>
    obtain ⟨⟨⟨none, room⟩, made⟩, working⟩ :
        ((viewers.conn slot false = none ∧ viewers.server.hasRoom net request.remoteip = true) ∧
          0 ≤ outcome.fd) ∧ (outcome.sent = false ∨ outcome.encOk = true) := by
      unfold Viewers.clean at clean
      rw [found] at clean
      simpa using clean
    have unused : (viewers.server.usr slot).used = 0 := by
      have chosen := List.find?_some found
      exact of_decide_eq_true chosen
    have absent := sound.absent_of_unused unused none
    have quiet := sound.not_listening_of_unused unused
    -- The viewer is added, and its connection is made.
    rw [found] at done
    dsimp only at done
    rw [Server.addAvUsrList_of_room room] at done
    dsimp only at done
    rw [if_neg (by decide), if_neg (Int.not_lt.mpr made), Server.setUsr_setUsr,
      Server.setUsr_usr_same, Server.setUsr_usr_same] at done
    cases sent : outcome.sent with
    | false =>
      have joined := @join net viewers slot sound true request.remoteip
        { initAvUsrInfo (viewers.server.usr slot) with
          used := 1, addr := request.remoteip, fd := outcome.fd }
        viewers.listener absent room rfl (fun _ => rfl) rfl quiet fun _ _ => Iff.rfl
      rw [if_pos sent, Server.delAvUsrList_of_unlocked (by rw [Server.setUsr_usr_same]; rfl),
        Server.setUsr_usr_same] at done
      cases done
      have parted := @part net _ joined _ List.mem_cons_self ⟨0, -1, 0, 0, -1, -1, -1, false⟩
        ⟨rfl, rfl⟩ rfl
      rw [List.erase_cons_head] at parted
      exact parted
    | true =>
      have encOk : outcome.encOk = true := by
        rcases working with failed | encOk
        · rw [sent] at failed
          cases failed
        · exact encOk
      rw [if_neg (by rw [sent]; decide), if_neg (by rw [encOk]; simp), Server.setUsr_setUsr] at done
      cases done
      obtain ⟨addr, used, unlocked⟩ := serve_kept
        { initAvUsrInfo (viewers.server.usr slot) with
          used := 1, addr := request.remoteip, fd := outcome.fd, vencNo := request.channel
          streamIdx := request.streamIdx } request outcome
      exact sound.join absent room addr (fun _ => used) unlocked quiet fun _ _ => Iff.rfl

/-- What happens keeps the accounts, when it is clean. -/
theorem step {after : Viewers} {visit : Visit} (sound : viewers.Sound net)
    (clean : viewers.clean net visit = true) (done : viewers.step net visit = some after) :
    after.Sound net := by
  cases visit with
  | listen slot => exact sound.listen done
  | incoming guest acceptFd =>
    obtain ⟨slot, listens, rfl⟩ := Option.map_eq_some_iff.mp done
    exact sound.accept listens guest acceptFd
  | acceptError => cases clean
  | hangUp slot => exact sound.drop done
  | connect request outcome => exact sound.connect clean done
  | close slot => exact sound.drop done

end Viewers.Sound

theorem Viewers.sound_start (net : Net) : Viewers.start.Sound net where
  lan := rfl
  wan := rfl
  lanMost := Int.natCast_nonneg _
  wanMost := Int.natCast_nonneg _
  apart := List.nodup_nil
  bound := fun _ member => absurd member List.not_mem_nil
  listening := fun _ never => by cases never
  free := fun _ _ _ => ⟨rfl, rfl⟩
  unlocked := fun _ => rfl

/-- In a run in which everything that happens is clean, the accounts are right. -/
theorem viewers_accounted {net : Net} {visits : List Visit} {viewers : Viewers}
    (run : Runs (fun before visit after => Viewers.step net before visit = some after ∧
      before.clean net visit = true) .start visits viewers) : viewers.Accounted net := by
  have sound : viewers.Sound net :=
    run.invariant (Viewers.sound_start net) fun _ _ _ taken sound => sound.step taken.2 taken.1
  exact sound.accounted

/-- One interface, and room for two viewers inside and two outside. -/
def smallNet : Net := ⟨0xc0a80102, 0xffffff00, 0, 0, 1, 2, 2⟩

/-- A viewer outside stays, a viewer inside comes and goes. -/
theorem viewers_accounted_two :
    ∃ viewers : Viewers, viewers.Accounted smallNet ∧
      viewers.server.wanUsrs = 1 ∧ viewers.server.lanUsrs = 0 := by
  obtain ⟨viewers, run, counted⟩ := @Runs.of_any_guarded Viewers Visit .start
    (Viewers.step smallNet) (fun before visit => before.clean smallNet visit = true) _
    [.connect ⟨0x08080808, 0, 0, 0⟩ ⟨7, true, true, 1⟩, .listen 1,
      .incoming 0xc0a80109 8, .hangUp 1]
    (fun after => after.server.wanUsrs = 1 ∧ after.server.lanUsrs = 0) (by decide)
  exact ⟨viewers, viewers_accounted run, of_decide_eq_true counted⟩

/-- A connection that cannot be made stays in the counters. -/
theorem failed_connection_counted :
    ¬ ∀ net visits viewers,
      Runs (fun before visit after => Viewers.step net before visit = some after)
      .start visits viewers → viewers.Accounted net := by
  intro always
  obtain ⟨viewers, run, counted⟩ := @Runs.of_any Viewers Visit .start (Viewers.step smallNet)
    [.connect ⟨0x08080808, 0, 0, 0⟩ ⟨-1, true, true, 1⟩]
    (fun after => after.server.wanUsrs = 1 ∧ after.live = []) (by decide)
  obtain ⟨one, none⟩ := of_decide_eq_true counted
  have same := (always smallNet _ viewers run).wan
  rw [one, none] at same
  cases same

end ExmOnvif.Rtimage
