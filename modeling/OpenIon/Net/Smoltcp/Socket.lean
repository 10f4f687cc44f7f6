import OpenIon.Lib.Run
import Mathlib.Data.List.Basic

/-! # The UDP socket of the smoltcp provider

`SmoltcpProvider` owns one pair of packet buffers, so it hands out one UDP socket at a time, which
`UDP_IN_USE` records. The UDP sockets of the library and its sets of sockets are parameters.
`none` stands for a panic.
-/
namespace OpenIon.Net.Smoltcp
open Lib

inductive PosixError where
  | eafnosupport
  | einval
  | enomem
  | eagain
  | enotconn
  | enobufs
  | ebadf
  deriving DecidableEq

inductive AddressFamily where
  | inet
  | inet6
  deriving DecidableEq

inductive SocketType where
  | stream
  | dgram
  | raw

inductive Protocol where
  | tcp
  | udp
  | icmp
  | any

structure SocketAddrV4 where
  ip : Vector UInt8 4
  port : UInt16

abbrev SocketHandle := ℕ

/-- What the provider asks of a UDP socket: the address of a packet that came by IPv6 is `none`. -/
structure UdpSocket (σ : Type) where
  new : σ
  bind : σ → UInt16 → Option σ
  recvSlice : σ → ℕ → Option (ℕ × Option (Vector UInt8 4) × UInt16) × σ
  sendSlice : σ → List UInt8 → SocketAddrV4 → Bool × σ

inductive Socket (σ : Type) where
  | dhcp
  | udp (socket : σ)

/-- What the provider asks of a set of sockets. It works on a socket in place, which writes back what
the socket has become. -/
structure SocketSet (σ τ : Type) where
  new : τ
  add : τ → Socket σ → SocketHandle × τ
  get : τ → SocketHandle → Option (Socket σ)
  write : τ → SocketHandle → Socket σ → τ
  remove : τ → SocketHandle → Option τ

/-- A socket is added under a fresh handle, and its handle is invalid once it is removed. -/
structure SocketSet.Lawful {σ τ : Type} (lib : SocketSet σ τ) : Prop where
  get_new : ∀ handle, lib.get lib.new handle = none
  add_fresh : ∀ sockets socket, lib.get sockets (lib.add sockets socket).1 = none
  get_add : ∀ sockets socket handle, lib.get (lib.add sockets socket).2 handle =
    if handle = (lib.add sockets socket).1 then some socket else lib.get sockets handle
  get_write : ∀ sockets handle socket, (lib.get sockets handle).isSome = true → ∀ other,
    lib.get (lib.write sockets handle socket) other =
      if other = handle then some socket else lib.get sockets other
  get_remove : ∀ sockets handle, (lib.get sockets handle).isSome = true →
    ∃ sockets', lib.remove sockets handle = some sockets' ∧
      ∀ other, lib.get sockets' other = if other = handle then none else lib.get sockets other

/-- The library panics when the handle is not in the set or is not a UDP socket. -/
def SocketSet.getUdp {σ τ : Type} (lib : SocketSet σ τ) (sockets : τ) (handle : SocketHandle) :
    Option σ :=
  match lib.get sockets handle with
  | some (.udp socket) => some socket
  | _ => none

structure State (τ : Type) where
  udpInUse : Bool
  handlePool : List (Option SocketHandle)
  networkSockets : Option τ

variable {σ τ : Type}

def State.new : State τ := ⟨false, List.replicate 4 none, none⟩

def allocateFd (pool : List (Option SocketHandle)) (handle : SocketHandle) :
    Except PosixError (ℕ × List (Option SocketHandle)) :=
  match pool.findIdx? Option.isNone with
  | some fd => .ok (fd, pool.set fd (some handle))
  | none => .error .enomem

def getHandle (pool : List (Option SocketHandle)) (fd : ℕ) : Except PosixError SocketHandle :=
  match pool[fd]? with
  | some (some handle) => .ok handle
  | _ => .error .ebadf

def freeFd (pool : List (Option SocketHandle)) (fd : ℕ) : List (Option SocketHandle) :=
  pool.set fd none

section Calls

variable (lib : SocketSet σ τ) (udp : UdpSocket σ) (s : State τ)

/-- `net::init` with a network device: the set of sockets with the DHCP client in it. -/
def init : State τ := { s with networkSockets := some (lib.add lib.new .dhcp).2 }

def socketUdp : Option (Except PosixError ℕ × State τ) :=
  if s.udpInUse then some (.error .enobufs, s)
  else
    let s := { s with udpInUse := true }
    match s.networkSockets with
    | none => some (.error .enomem, s)
    | some sockets =>
      let (handle, sockets) := lib.add sockets (.udp udp.new)
      match allocateFd s.handlePool handle with
      | .ok (fd, pool) => some (.ok fd, { s with handlePool := pool, networkSockets := some sockets })
      | .error e =>
        (lib.remove sockets handle).map fun sockets =>
          (.error e, { s with networkSockets := some sockets, udpInUse := false })

def socket (domain : AddressFamily) (ty : SocketType) (proto : Protocol) :
    Option (Except PosixError ℕ × State τ) :=
  if domain ≠ .inet then some (.error .eafnosupport, s)
  else
    match ty, proto with
    | .dgram, .udp => socketUdp lib udp s
    | .dgram, .any => socketUdp lib udp s
    | _, _ => some (.error .eafnosupport, s)

/-- The part that the calls on a descriptor share: find the UDP socket and work on it. -/
def onSocket {α : Type} (fd : ℕ) (work : σ → Except PosixError α × σ) :
    Option (Except PosixError α × State τ) :=
  match getHandle s.handlePool fd with
  | .error e => some (.error e, s)
  | .ok handle =>
    match s.networkSockets with
    | none => some (.error .enotconn, s)
    | some sockets =>
      (lib.getUdp sockets handle).map fun socket =>
        let (result, socket) := work socket
        (result, { s with networkSockets := some (lib.write sockets handle (.udp socket)) })

def bind (fd : ℕ) (addr : SocketAddrV4) : Option (Except PosixError Unit × State τ) :=
  onSocket lib s fd fun socket =>
    match udp.bind socket addr.port with
    | some socket => (.ok (), socket)
    | none => (.error .einval, socket)

def recv (fd bufLen : ℕ) : Option (Except PosixError ℕ × State τ) :=
  onSocket lib s fd fun socket =>
    match udp.recvSlice socket bufLen with
    | (some (len, _, _), socket) => (.ok len, socket)
    | (none, socket) => (.error .eagain, socket)

def sendTo (fd : ℕ) (buf : List UInt8) (addr : SocketAddrV4) :
    Option (Except PosixError ℕ × State τ) :=
  onSocket lib s fd fun socket =>
    match udp.sendSlice socket buf addr with
    | (true, socket) => (.ok buf.length, socket)
    | (false, socket) => (.error .enobufs, socket)

def recvFrom (fd bufLen : ℕ) : Option (Except PosixError (ℕ × SocketAddrV4) × State τ) :=
  onSocket lib s fd fun socket =>
    match udp.recvSlice socket bufLen with
    | (some (len, ip, port), socket) => (.ok (len, ⟨ip.getD (.replicate 4 0), port⟩), socket)
    | (none, socket) => (.error .eagain, socket)

def close (fd : ℕ) : Option (Except PosixError Unit × State τ) :=
  match getHandle s.handlePool fd with
  | .error e => some (.error e, s)
  | .ok handle =>
    match s.networkSockets with
    | none => some (.error .enotconn, s)
    | some sockets =>
      (lib.remove sockets handle).map fun sockets =>
        (.ok (), ⟨false, freeFd s.handlePool fd, some sockets⟩)

end Calls

inductive Call where
  | init
  | socket (domain : AddressFamily) (ty : SocketType) (proto : Protocol)
  | bind (fd : ℕ) (addr : SocketAddrV4)
  | recv (fd bufLen : ℕ)
  | sendTo (fd : ℕ) (buf : List UInt8) (addr : SocketAddrV4)
  | recvFrom (fd bufLen : ℕ)
  | close (fd : ℕ)

/-- The stack is initialised once. -/
def State.expects (s : State τ) : Call → Bool
  | .init => s.networkSockets.isNone
  | _ => true

section Books

variable (lib : SocketSet σ τ) (udp : UdpSocket σ) (s : State τ)

def perform : Call → Option (State τ)
  | .init => some (init lib s)
  | .socket domain ty proto => (socket lib udp s domain ty proto).map Prod.snd
  | .bind fd addr => (bind lib udp s fd addr).map Prod.snd
  | .recv fd bufLen => (recv lib udp s fd bufLen).map Prod.snd
  | .sendTo fd buf addr => (sendTo lib udp s fd buf addr).map Prod.snd
  | .recvFrom fd bufLen => (recvFrom lib udp s fd bufLen).map Prod.snd
  | .close fd => (close lib s fd).map Prod.snd

def step (call : Call) : Option (State τ) := if s.expects call then perform lib udp s call else none

/-- The descriptor is live and refers to a UDP socket of the set. -/
def State.Refers (fd : ℕ) : Prop :=
  ∃ handle sockets socket, s.handlePool[fd]? = some (some handle) ∧
    s.networkSockets = some sockets ∧ lib.get sockets handle = some (.udp socket)

/-- The set has the DHCP client, and a UDP socket at most under the handle. -/
structure SocketSet.Keeps (sockets : τ) (handle : Option SocketHandle) : Prop where
  dhcp : ∃ other, lib.get sockets other = some .dhcp
  udp : ∀ other socket, lib.get sockets other = some (.udp socket) → handle = some other

/-- `UDP_IN_USE` tells whether the one descriptor of the UDP socket is live, the set has no other UDP
socket, no call panics, and after `close` the next UDP socket can be had. -/
structure BooksKept : Prop where
  inUse : s.udpInUse = true ↔ ∃ fd, s.Refers lib fd
  one : ∀ fd fd', s.Refers lib fd → s.Refers lib fd' → fd = fd'
  live : ∀ fd handle, s.handlePool[fd]? = some (some handle) → s.Refers lib fd
  set : ∀ sockets, s.networkSockets = some sockets →
    ∃ handle, lib.Keeps sockets handle ∧ ∀ h, handle = some h → some h ∈ s.handlePool
  returns : ∀ call, s.expects call = true → (step lib udp s call).isSome = true
  reopens : ∀ fd s', close lib s fd = some (.ok (), s') →
    ∃ fd' s'', socketUdp lib udp s' = some (.ok fd', s'')

/-- A `socket` call that fails leaves the descriptors and the flag as they were. -/
def FailureKeeps (call : Call) : Prop :=
  ∀ domain ty proto, call = .socket domain ty proto →
    ∀ e s', socket lib udp s domain ty proto = some (.error e, s') →
      s'.handlePool = s.handlePool ∧ s'.udpInUse = s.udpInUse

def Call.wantsUdp : Call → Bool
  | .socket .inet .dgram .udp => true
  | .socket .inet .dgram .any => true
  | _ => false

/-- No UDP socket is asked for before the stack is initialised. -/
def AfterInit (call : Call) : Prop := call.wantsUdp = true → s.networkSockets.isSome = true

/-- With at most one descriptor live, the first slot is always the one taken. -/
inductive Books : State τ → Prop where
  | closed (sockets : Option τ) (keeps : ∀ set ∈ sockets, lib.Keeps set none) :
      Books ⟨false, List.replicate 4 none, sockets⟩
  | opened (sockets : τ) (handle : SocketHandle) (socket : σ)
      (udp : lib.get sockets handle = some (.udp socket)) (keeps : lib.Keeps sockets (some handle)) :
      Books ⟨true, [some handle, none, none, none], some sockets⟩

end Books

theorem getHandle_closed (fd : ℕ) : getHandle (List.replicate 4 none) fd = .error .ebadf := by
  unfold getHandle
  rw [List.getElem?_replicate]
  split_ifs
  · rfl
  · rfl

theorem getHandle_opened (handle : SocketHandle) (fd : ℕ) :
    getHandle [some handle, none, none, none] fd =
      if fd = 0 then .ok handle else .error .ebadf := by
  rcases fd with - | - | - | - | fd <;> rfl

variable {lib : SocketSet σ τ} {udp : UdpSocket σ} {s s' : State τ} {call : Call}

section Keeps

variable {sockets : τ} {handle : SocketHandle} {socket : σ}

theorem SocketSet.Lawful.keeps_init (hlib : lib.Lawful) :
    lib.Keeps (lib.add lib.new .dhcp).2 none := by
  refine ⟨⟨_, by rw [hlib.get_add, if_pos rfl]⟩, fun other socket hget => ?_⟩
  rw [hlib.get_add, hlib.get_new] at hget
  split_ifs at hget
  cases hget

theorem SocketSet.Lawful.keeps_add (hlib : lib.Lawful) (h : lib.Keeps sockets none) (socket : σ) :
    lib.Keeps (lib.add sockets (.udp socket)).2 (some (lib.add sockets (.udp socket)).1) := by
  obtain ⟨⟨dhcp, hdhcp⟩, hudp⟩ := h
  refine ⟨⟨dhcp, ?_⟩, fun other socket' hget => ?_⟩
  · rw [hlib.get_add, if_neg, hdhcp]
    rintro rfl
    cases hdhcp.symm.trans (hlib.add_fresh ..)
  · rw [hlib.get_add] at hget
    split_ifs at hget with heq
    · rw [heq]
    · cases hudp other socket' hget

theorem SocketSet.Lawful.keeps_write (hlib : lib.Lawful) (h : lib.Keeps sockets (some handle))
    (hget : lib.get sockets handle = some (.udp socket)) (socket' : σ) :
    lib.Keeps (lib.write sockets handle (.udp socket')) (some handle) := by
  have hwrite := hlib.get_write sockets handle (.udp socket') (by rw [hget]; rfl)
  obtain ⟨⟨dhcp, hdhcp⟩, hudp⟩ := h
  refine ⟨⟨dhcp, ?_⟩, fun other socket'' hother => ?_⟩
  · rw [hwrite, if_neg, hdhcp]
    rintro rfl
    cases hdhcp.symm.trans hget
  · rw [hwrite] at hother
    split_ifs at hother with heq
    · rw [heq]
    · exact hudp other socket'' hother

theorem SocketSet.Lawful.keeps_remove (hlib : lib.Lawful) (h : lib.Keeps sockets (some handle))
    (hget : lib.get sockets handle = some (.udp socket)) :
    ∃ sockets', lib.remove sockets handle = some sockets' ∧ lib.Keeps sockets' none := by
  obtain ⟨sockets', hremove, hsockets'⟩ := hlib.get_remove sockets handle (by rw [hget]; rfl)
  obtain ⟨⟨dhcp, hdhcp⟩, hudp⟩ := h
  refine ⟨sockets', hremove, ⟨dhcp, ?_⟩, fun other socket' hother => ?_⟩
  · rw [hsockets', if_neg, hdhcp]
    rintro rfl
    cases hdhcp.symm.trans hget
  · rw [hsockets'] at hother
    split_ifs at hother with heq
    exact absurd (Option.some.inj (hudp other socket' hother)).symm heq

end Keeps

theorem Books.onSocket (h : Books lib s) (hlib : lib.Lawful) {α : Type} (fd : ℕ)
    (work : σ → Except PosixError α × σ) :
    ∃ result s', onSocket lib s fd work = some (result, s') ∧ Books lib s' := by
  cases h with
  | closed sockets hkeeps =>
    refine ⟨.error .ebadf, _, ?_, .closed sockets hkeeps⟩
    rw [Smoltcp.onSocket, getHandle_closed]
  | opened sockets handle socket hudp hkeeps =>
    by_cases hfd : fd = 0
    · have hwrite := hlib.get_write sockets handle (.udp (work socket).2) (by rw [hudp]; rfl) handle
      refine ⟨(work socket).1, _, ?_, .opened (lib.write sockets handle (.udp (work socket).2)) handle
        (work socket).2 (by rw [hwrite, if_pos rfl]) (hlib.keeps_write hkeeps hudp _)⟩
      simp only [Smoltcp.onSocket, getHandle_opened, hfd, if_true, SocketSet.getUdp, hudp]
      rfl
    · refine ⟨.error .ebadf, _, ?_, .opened sockets handle socket hudp hkeeps⟩
      simp only [Smoltcp.onSocket, getHandle_opened, hfd, if_false]

theorem Books.close (h : Books lib s) (hlib : lib.Lawful) (fd : ℕ) :
    ∃ result s', close lib s fd = some (result, s') ∧ Books lib s' ∧
      (result = .ok () → s'.udpInUse = false ∧ s'.networkSockets.isSome = true) := by
  cases h with
  | closed sockets hkeeps =>
    refine ⟨.error .ebadf, _, ?_, .closed sockets hkeeps, by simp⟩
    rw [Smoltcp.close, getHandle_closed]
  | opened sockets handle socket hudp hkeeps =>
    by_cases hfd : fd = 0
    · obtain ⟨sockets', hremove, hkeeps'⟩ := hlib.keeps_remove hkeeps hudp
      refine ⟨.ok (), _, ?_, .closed (some sockets') (by simpa using hkeeps'), by simp⟩
      simp only [Smoltcp.close, getHandle_opened, hfd, if_true, hremove]
      rfl
    · refine ⟨.error .ebadf, _, ?_, .opened sockets handle socket hudp hkeeps, by simp⟩
      simp only [Smoltcp.close, getHandle_opened, hfd, if_false]

/-- Once the stack is initialised, the UDP socket is handed out if it is not in use. -/
theorem Books.socketUdp (h : Books lib s) (hlib : lib.Lawful)
    (hinit : s.networkSockets.isSome = true) (udp : UdpSocket σ) :
    (s.udpInUse = true ∧ socketUdp lib udp s = some (.error .enobufs, s)) ∨
      (s.udpInUse = false ∧ ∃ s', socketUdp lib udp s = some (.ok 0, s') ∧ Books lib s') := by
  cases h with
  | opened sockets handle socket hudp hkeeps => exact .inl ⟨rfl, rfl⟩
  | closed sockets hkeeps =>
    obtain ⟨sockets, rfl⟩ := Option.isSome_iff_exists.mp hinit
    exact .inr ⟨rfl, _, rfl, .opened (lib.add sockets (.udp udp.new)).2 _ udp.new
      (by rw [hlib.get_add, if_pos rfl]) (hlib.keeps_add (hkeeps sockets rfl) udp.new)⟩

theorem socket_eq (domain : AddressFamily) (ty : SocketType) (proto : Protocol) :
    socket lib udp s domain ty proto =
      if (Call.socket domain ty proto).wantsUdp then socketUdp lib udp s
      else some (.error .eafnosupport, s) := by
  cases domain <;> cases ty <;> cases proto <;> rfl

/-- Every call returns, and keeps the books unless it asks for a UDP socket too early. -/
theorem Books.perform (h : Books lib s) (hlib : lib.Lawful) (udp : UdpSocket σ)
    (hexpects : s.expects call = true) :
    ∃ s', perform lib udp s call = some s' ∧ (AfterInit s call → Books lib s') := by
  have hon : ∀ {α : Type} (fd : ℕ) (work : σ → Except PosixError α × σ),
      ∃ s', (Smoltcp.onSocket lib s fd work).map Prod.snd = some s' ∧
        (AfterInit s call → Books lib s') := by
    intro α fd work
    obtain ⟨result, s', hcall, hs'⟩ := h.onSocket hlib fd work
    exact ⟨s', by rw [hcall]; rfl, fun _ => hs'⟩
  cases call with
  | init =>
    refine ⟨init lib s, rfl, fun _ => ?_⟩
    cases h with
    | closed sockets hkeeps => exact .closed _ (by simpa using hlib.keeps_init)
    | opened sockets handle socket hudp hkeeps => cases hexpects
  | socket domain ty proto =>
    rw [Smoltcp.perform, socket_eq]
    by_cases hwants : (Call.socket domain ty proto).wantsUdp = true
    · rw [if_pos hwants]
      by_cases hinit : s.networkSockets.isSome = true
      · obtain ⟨-, hcall⟩ | ⟨-, s', hcall, hs'⟩ := h.socketUdp hlib hinit udp
        · exact ⟨s, by rw [hcall]; rfl, fun _ => h⟩
        · exact ⟨s', by rw [hcall]; rfl, fun _ => hs'⟩
      · cases h with
        | closed sockets hkeeps =>
          cases sockets with
          | none => exact ⟨_, rfl, fun hok => absurd (hok hwants) hinit⟩
          | some sockets => exact absurd rfl hinit
        | opened sockets handle socket hudp hkeeps => exact absurd rfl hinit
    · rw [if_neg hwants]
      exact ⟨s, rfl, fun _ => h⟩
  | bind fd addr => exact hon fd _
  | recv fd bufLen => exact hon fd _
  | sendTo fd buf addr => exact hon fd _
  | recvFrom fd bufLen => exact hon fd _
  | close fd =>
    obtain ⟨result, s', hcall, hs', -⟩ := h.close hlib fd
    exact ⟨s', by rw [Smoltcp.perform, hcall]; rfl, fun _ => hs'⟩

theorem step_eq_some_iff : step lib udp s call = some s' ↔
    s.expects call = true ∧ perform lib udp s call = some s' := by
  rw [step, Option.ite_none_right_eq_some]

theorem Books.step (h : Books lib s) (hlib : lib.Lawful) (hok : AfterInit s call)
    (hstep : step lib udp s call = some s') : Books lib s' := by
  obtain ⟨hexpects, hcall⟩ := step_eq_some_iff.mp hstep
  obtain ⟨d, hd, hbooks⟩ := h.perform hlib udp hexpects
  rw [hcall] at hd
  exact Option.some.inj hd ▸ hbooks hok

theorem Books.refers_iff (h : Books lib s) (fd : ℕ) :
    s.Refers lib fd ↔ s.udpInUse = true ∧ fd = 0 := by
  cases h with
  | closed sockets =>
    constructor
    · rintro ⟨handle, -, -, hfd, -⟩
      rw [List.getElem?_replicate] at hfd
      split_ifs at hfd
      · cases hfd
    · rintro ⟨⟨⟩, -⟩
  | opened sockets handle socket hudp =>
    constructor
    · rintro ⟨handle', -, -, hfd, -⟩
      rcases fd with - | - | - | - | fd
      · exact ⟨rfl, rfl⟩
      all_goals cases hfd
    · rintro ⟨-, rfl⟩
      exact ⟨handle, sockets, socket, rfl, rfl, hudp⟩

theorem Books.kept (h : Books lib s) (hlib : lib.Lawful) (udp : UdpSocket σ) :
    BooksKept lib udp s := by
  refine ⟨?_, ?_, ?_, ?_, ?_, ?_⟩
  · simp only [h.refers_iff, exists_eq_right]
  · intro fd fd' hfd hfd'
    rw [((h.refers_iff fd).mp hfd).2, ((h.refers_iff fd').mp hfd').2]
  · intro fd handle hfd
    cases h with
    | closed sockets =>
      rw [List.getElem?_replicate] at hfd
      split_ifs at hfd
      · cases hfd
    | opened sockets handle' socket hudp =>
      rcases fd with - | - | - | - | fd
      · exact ⟨handle', sockets, socket, rfl, rfl, hudp⟩
      all_goals cases hfd
  · rintro sockets hsockets
    cases h with
    | closed sockets' hkeeps => exact ⟨none, hkeeps sockets hsockets, by simp⟩
    | opened sockets' handle socket hudp hkeeps =>
      exact ⟨some handle, Option.some.inj hsockets ▸ hkeeps, by simp⟩
  · intro call hexpects
    obtain ⟨s', hcall, -⟩ := h.perform hlib udp hexpects
    rw [Smoltcp.step, if_pos hexpects, hcall]
    rfl
  · intro fd s' hclose
    obtain ⟨result, d, hd, hbooks, hfreed⟩ := h.close hlib fd
    rw [hclose] at hd
    obtain ⟨rfl, rfl⟩ := Prod.mk.inj (Option.some.inj hd)
    obtain ⟨hflag, hinit⟩ := hfreed rfl
    obtain ⟨huse, -⟩ | ⟨-, s'', hcall, -⟩ := hbooks.socketUdp hlib hinit udp
    · rw [hflag] at huse
      cases huse
    · exact ⟨0, s'', hcall⟩

theorem Books.failureKeeps (h : Books lib s) (hlib : lib.Lawful) (hok : AfterInit s call) :
    FailureKeeps lib udp s call := by
  rintro domain ty proto rfl e s' hcall
  rw [socket_eq] at hcall
  split_ifs at hcall with hwants
  · obtain ⟨-, henobufs⟩ | ⟨-, s'', hsome, -⟩ := h.socketUdp hlib (hok hwants) udp
    · rw [henobufs] at hcall
      obtain ⟨-, rfl⟩ := Prod.mk.inj (Option.some.inj hcall)
      exact ⟨rfl, rfl⟩
    · rw [hsome] at hcall
      cases hcall
  · obtain ⟨-, rfl⟩ := Prod.mk.inj (Option.some.inj hcall)
    exact ⟨rfl, rfl⟩

/-- The flag stays set when the UDP socket is asked for too early, with no descriptor for it. -/
theorem Books.too_early (h : Books lib s) (hbad : ¬ AfterInit s call)
    (hstep : Smoltcp.step lib udp s call = some s') : ¬ BooksKept lib udp s' := by
  obtain ⟨hwants, hnone⟩ := Classical.not_imp.mp hbad
  obtain ⟨-, hcall⟩ := step_eq_some_iff.mp hstep
  cases call with
  | socket domain ty proto =>
    rw [Smoltcp.perform, socket_eq, if_pos hwants] at hcall
    have hflag : s' = { s with udpInUse := true } ∧ s.networkSockets = none := by
      cases h with
      | opened sockets handle socket hudp => exact absurd rfl hnone
      | closed sockets =>
        cases sockets with
        | some sockets => exact absurd rfl hnone
        | none => exact ⟨(Option.some.inj hcall).symm, rfl⟩
    intro hkept
    obtain ⟨fd, handle, sockets, socket, -, hsome, -⟩ := hkept.inUse.mp (by rw [hflag.1])
    rw [hflag.1] at hsome
    cases hsome.symm.trans hflag.2
  | _ => cases hwants

/-- In a sequence of calls the flag, the descriptors and the set of sockets agree throughout, and
failing `socket` calls change nothing, exactly if no UDP socket is asked for before the network
stack is initialised. -/
theorem udp_books_iff (lib : SocketSet σ τ) (hlib : lib.Lawful) (udp : UdpSocket σ)
    (calls : List Call) :
    (Always (step lib udp) (BooksKept lib udp) State.new calls ∧
      Along (step lib udp) (FailureKeeps lib udp) State.new calls) ↔
    Along (step lib udp) AfterInit State.new calls := by
  have hnew : Books lib State.new := .closed none (by simp)
  have hstep : ∀ s call s', Books lib s → AfterInit s call →
      step lib udp s call = some s' → Books lib s' := fun s call s' h hok hs => h.step hlib hok hs
  have hiff : Always (step lib udp) (BooksKept lib udp) State.new calls ↔
      Along (step lib udp) AfterInit State.new calls :=
    always_iff_along (fun s (h : Books lib s) => h.kept hlib udp) hstep
      (fun s call s' h hbad hs => h.too_early hbad hs) hnew
  constructor
  · intro h
    exact hiff.mp h.1
  · intro h
    exact ⟨hiff.mpr h, h.imp hstep (fun s call hs hok => hs.failureKeeps hlib hok) hnew⟩

/-- Sockets in slots, with the next slot for the one that is added. -/
def slots (σ : Type) : SocketSet σ (List (Option (Socket σ))) where
  new := []
  add sockets socket := (sockets.length, sockets ++ [some socket])
  get sockets handle := sockets[handle]?.join
  write sockets handle socket := sockets.set handle (some socket)
  remove sockets handle :=
    if sockets[handle]?.join.isSome then some (sockets.set handle none) else none

theorem slots_lawful : (slots σ).Lawful where
  get_new handle := rfl
  add_fresh sockets socket := by simp [slots]
  get_add sockets socket handle := by
    simp only [slots, List.getElem?_append]
    grind
  get_write sockets handle socket hget other := by
    simp only [slots] at hget ⊢
    grind
  get_remove sockets handle hget := by
    refine ⟨sockets.set handle none, if_pos hget, fun other => ?_⟩
    simp only [slots]
    grind

def quiet : UdpSocket Unit := ⟨(), fun _ _ => some (), fun _ _ => (none, ()), fun _ _ _ => (true, ())⟩

/-- The UDP socket is had, closed and had again. -/
theorem reopened_books_kept :
    Always (step (slots Unit) quiet) (BooksKept (slots Unit) quiet) State.new
        [.init, .socket .inet .dgram .udp, .close 0, .socket .inet .dgram .any] ∧
      Along (step (slots Unit) quiet) (FailureKeeps (slots Unit) quiet) State.new
        [.init, .socket .inet .dgram .udp, .close 0, .socket .inet .dgram .any] :=
  (udp_books_iff (slots Unit) slots_lawful quiet _).mpr <|
    (along_cons_of_some rfl).mpr ⟨fun h => Bool.noConfusion h,
      (along_cons_of_some rfl).mpr ⟨fun _ => rfl,
        (along_cons_of_some rfl).mpr ⟨fun _ => rfl,
          (along_cons_of_some rfl).mpr ⟨fun _ => rfl, trivial⟩⟩⟩⟩

/-- A UDP socket is asked for before the stack is initialised: the call fails, and every later one
fails too, although no descriptor was ever handed out. -/
theorem early_socket_blocks_udp :
    ∃ s s' : State (List (Option (Socket Unit))),
      socket (slots Unit) quiet State.new .inet .dgram .udp = some (.error .enomem, s) ∧
      run (step (slots Unit) quiet) State.new [.socket .inet .dgram .udp, .init] = some s' ∧
      s.udpInUse = true ∧ s'.handlePool = List.replicate 4 none ∧
      socket (slots Unit) quiet s' .inet .dgram .udp = some (.error .enobufs, s') ∧
      ¬ (Always (step (slots Unit) quiet) (BooksKept (slots Unit) quiet) State.new
          [.socket .inet .dgram .udp, .init] ∧
        Along (step (slots Unit) quiet) (FailureKeeps (slots Unit) quiet) State.new
          [.socket .inet .dgram .udp, .init]) := by
  refine ⟨_, _, rfl, rfl, rfl, rfl, rfl, ?_⟩
  rintro ⟨-, halong⟩
  have hkeeps := (halong _ rfl).1 _ _ _ rfl _ _ rfl
  cases hkeeps.2

end OpenIon.Net.Smoltcp
