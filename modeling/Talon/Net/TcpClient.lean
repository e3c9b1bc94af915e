import Talon.Buffer.Resize
import Talon.Handler.State
import Talon.Net.SockaddrIn
import Mathlib.Data.Fin.VecNotation

/-! `TcpClient` of async_io_tcp_client.hpp. The address of the peer goes as raw bytes
into the buffer of the task, where the handler reads it. -/
namespace Talon.Net
open Talon.Buffer Talon.Memory.BufferPool

def kDefaultBufferSize : Nat := 2048

/-- The open descriptors, the buffers, and the client's `last_error_`. -/
structure Client where
  connectTimeoutMs : Int := 5000
  lastError : String := ""
  opened : List Nat := []
  buffers : Buffer.State := {}

/-- What the system answers to one call: a descriptor or an error number, the storage of
the new task's buffer, and whether `operator new` throws. -/
structure System where
  socket : Except Int Nat
  inetPton : String → Option InAddr
  strerror : Int → String
  storage : Object := 0
  exhausted : Bool := false
  created : Environment := {}
  resized : Environment := {}

/-- An `AsyncTask<void>` that was never submitted. -/
structure NewTask where
  fd : Int
  taskType : TaskType := .kNone
  timeoutMs : Int := 0
  buffer : Object

/-- `ip.c_str()`: a string ends at its first null character. -/
def cStr (ip : String) : String := String.ofList (ip.toList.takeWhile (· ≠ '\x00'))

namespace Client

/-- Returns the address and the descriptor, which is -1 on failure. Left out: `last_error_` is a
string, whose assignment may throw too; after `inet_pton` the socket would then stay open. -/
def prepareSocket (s : Client) (env : System) (ip : String) (port : Int) : (SockaddrIn × Int) × Client :=
  match env.socket with
  | .error errno => (({}, -1), { s with lastError := "socket() failed: " ++ env.strerror errno })
  | .ok sockfd =>
      let opened := { s with opened := sockfd :: s.opened }
      let addr : SockaddrIn :=
        { sinFamily := BitVec.ofNat 16 AF_INET, sinPort := htons (BitVec.ofInt 16 port) }
      match env.inetPton (cStr ip) with
      | none => ((addr, -1), { opened with
          lastError := "inet_pton() failed for " ++ ip, opened := opened.opened.erase sockfd })
      | some address => (({ addr with sinAddr := address }, sockfd), opened)

/-- An exception leaves the state behind in which it was thrown. -/
def createTaskWithHandler (s : Client) (env : System) (fd : Int) : Except Client (NewTask × Client) :=
  if env.exhausted then .error s
  else
    match s.buffers.construct env.created env.storage kDefaultBufferSize with
    | .error thrown => .error { s with buffers := thrown }
    | .ok made => .ok ({ fd := fd, buffer := env.storage }, { s with buffers := made })

/-- `std::memcpy(task->Buffer()->Data(), &addr, sizeof(addr))` -/
def store (buffers : Buffer.State) (this : Object) (addr : SockaddrIn) : Buffer.State :=
  match buffers.data this with
  | some place => buffers.fill place fun i => addr.bytes.getD i (buffers.bytes place i)
  | none => { buffers with faulted := true }

def finalizeConnectTask (s : Client) (env : System) (task : NewTask) (addr : SockaddrIn) :
    Except Client (NewTask × Client) :=
  let typed := { task with taskType := .kConnect, timeoutMs := s.connectTimeoutMs }
  match s.buffers.resize env.resized task.buffer sockaddrInSize with
  | .error thrown => .error { s with buffers := thrown }
  | .ok resized => .ok (typed, { s with buffers := store resized task.buffer addr })

/-- `Connect`, with whatever handler. Null is `none`. -/
def connect (s : Client) (env : System) (ip : String) (port : Int) : Except Client (Option NewTask × Client) :=
  let ((addr, sockfd), prepared) := s.prepareSocket env ip port
  if sockfd < 0 then return (none, prepared)
  else do
    let (task, created) ← prepared.createTaskWithHandler env sockfd
    let (task, finished) ← created.finalizeConnectTask env task addr
    return (some task, finished)

end Client

/-- The buffer as `HandleConnect` and `ValidateConnectTask` see it. -/
def sockaddr (s : Buffer.State) (this : Object) : SockaddrIn := SockaddrIn.read (s.content this)

/-- `s_addr` as a number, zero exactly for 0.0.0.0. -/
def addressNumber (a : InAddr) : Nat := (List.ofFn a).foldl (fun n byte => 256 * n + byte.toNat) 0

/-- The task as it comes to the handler. -/
def NewTask.submitted (task : NewTask) (s : Buffer.State) : Handler.Task where
  fd := task.fd
  taskType := task.taskType
  timeoutMs := task.timeoutMs
  buffer :=
    { size := (s.buffer task.buffer).size
      sinFamily := (sockaddr s task.buffer).sinFamily.toNat
      sinPort := (ntohs (sockaddr s task.buffer).sinPort).toNat
      sinAddr := addressNumber (sockaddr s task.buffer).sinAddr }

/-- No task, a text that says why, and no descriptor left open; or a task that connects
to what was asked for. -/
def Answered (s : Client) (env : System) (ip : String) (port : Int) : Option NewTask × Client → Prop
  | (none, t) => t.opened = s.opened ∧ (t.lastError = "inet_pton() failed for " ++ ip ∨
      ∃ errno, env.socket = .error errno ∧ t.lastError = "socket() failed: " ++ env.strerror errno)
  | (some task, t) => task.taskType = .kConnect ∧
      (sockaddr t.buffers task.buffer).sinFamily.toNat = AF_INET ∧
      env.inetPton (cStr ip) = some (sockaddr t.buffers task.buffer).sinAddr ∧
      ((ntohs (sockaddr t.buffers task.buffer).sinPort).toNat : Int) = port

def Fulfils (s : Client) (env : System) (ip : String) (port : Int) : Prop :=
  ∃ outcome, s.connect env ip port = .ok outcome ∧ Answered s env ip port outcome

/-- There is no memory for the task or for its buffer. -/
def Exhausts (s : Client) (env : System) : Prop :=
  env.exhausted = true ∨
    (s.buffers.allocate env.created kDefaultBufferSize).1 = none ∧ env.created.throws = true

section Storage
variable {s t : Buffer.State} {env : Environment} {this : Object} {n : Nat}

/-- A pooled size is refused only if neither the pool nor the heap has anything. -/
theorem construct_pooled (s : Buffer.State) (env : Environment) (this : Object) (large : kKernelBufSboSize < n)
    (pooled : n ≤ kMaxPooledSize) :
    if (s.allocate env n).1 = none ∧ env.throws = true then ∃ thrown, s.construct env this n = .error thrown
    else ∃ t, s.construct env this n = .ok t ∧ (t.buffer this).size = n := by
  have same := create_allocate s env this n { size := n }
  simp only [State.construct, State.allocateStorage, if_neg (Nat.not_le.mpr large), if_pos pooled]
  rw [← same]
  generalize (s.create this { size := n }).allocate env n = answer
  obtain ⟨_ | grant, u⟩ := answer
  · cases throws : env.throws with
    | true => simp [State.allocateHeap, State.constructVector, throws, Except.mapError, Except.map]
    | false =>
      simp [State.allocateHeap, State.constructVector, throws, Except.mapError, Except.map, State.setSize]
  · simp [Except.mapError, State.setSize]

/-- The bytes of the object itself are always to be had. -/
theorem resize_small (env : Environment) (changes : n ≠ (s.buffer this).size) (small : n ≤ kKernelBufSboSize) :
    ∃ t, s.resize env this n = .ok t ∧ t.data this = some (.sbo this) ∧ (t.buffer this).size = n := by
  have moves : ¬ (n = (s.buffer this).size ∧ (s.buffer this).storageTag ≠ .kNone) := fun same => changes same.1
  simp only [State.resize, if_neg moves, State.allocateStorage, if_pos small]
  refine ⟨_, rfl, ?_, by simp [State.setSize]⟩
  rw [setSize_data]
  split
  · rw [memcpy_data, setSize_data]
    simp [State.data, State.fill]
  · rw [setSize_data]
    simp [State.data, State.fill]

theorem store_sockaddr {place : Place} (here : s.data this = some place) (addr : SockaddrIn) :
    sockaddr (Client.store s this addr) this = addr := by
  apply read_bytes
  intro i inside
  have there : (Client.store s this addr).data this = some place := by
    rw [Client.store, here]
    exact here
  have bound : i < addr.bytes.length := by rwa [bytes_length]
  rw [State.content, there, Client.store, here]
  simp only [State.fill, Function.update_self]
  simp only [List.getD_eq_getElem?_getD, List.getElem?_eq_getElem bound, Option.getD_some]

theorem store_size (addr : SockaddrIn) : ((Client.store s this addr).buffer this).size = (s.buffer this).size := by
  unfold Client.store
  split <;> rfl

end Storage

variable {s : Client} {env : System} {ip : String} {port : Int}

theorem createTaskWithHandler_throws (exhausts : Exhausts s env) (fd : Int) :
    ∃ thrown, s.createTaskWithHandler env fd = .error thrown := by
  unfold Client.createTaskWithHandler
  by_cases new : env.exhausted = true
  · exact ⟨s, if_pos new⟩
  · have pooled := construct_pooled (n := kDefaultBufferSize) s.buffers env.created env.storage (by decide) (by decide)
    rw [if_pos (exhausts.resolve_left new)] at pooled
    obtain ⟨thrown, constructed⟩ := pooled
    rw [if_neg new, constructed]
    exact ⟨_, rfl⟩

theorem createTaskWithHandler_ok (memory : ¬ Exhausts s env) (fd : Int) :
    ∃ made, s.createTaskWithHandler env fd = .ok (⟨fd, .kNone, 0, env.storage⟩, { s with buffers := made }) ∧
      (made.buffer env.storage).size = kDefaultBufferSize := by
  unfold Client.createTaskWithHandler
  have pooled := construct_pooled (n := kDefaultBufferSize) s.buffers env.created env.storage (by decide) (by decide)
  rw [if_neg (fun none_ => memory (Or.inr none_))] at pooled
  obtain ⟨made, constructed, size⟩ := pooled
  rw [if_neg (fun new => memory (Or.inl new)), constructed]
  exact ⟨made, rfl, size⟩

/-- The buffer holds the address and nothing else. -/
structure Holds (s : Buffer.State) (this : Object) (addr : SockaddrIn) : Prop where
  address : sockaddr s this = addr
  size : (s.buffer this).size = sockaddrInSize

theorem finalizeConnectTask_ok (env : System) (task : NewTask) (addr : SockaddrIn)
    (fresh : (s.buffers.buffer task.buffer).size = kDefaultBufferSize) :
    ∃ made, s.finalizeConnectTask env task addr =
        .ok ({ task with taskType := .kConnect, timeoutMs := s.connectTimeoutMs }, { s with buffers := made }) ∧
      Holds made task.buffer addr := by
  have changes : sockaddrInSize ≠ (s.buffers.buffer task.buffer).size := by
    rw [fresh]
    decide
  obtain ⟨resized, ok, here, size⟩ := resize_small env.resized changes (by decide)
  refine ⟨Client.store resized task.buffer addr, ?_, store_sockaddr here addr, (store_size addr).trans size⟩
  rw [Client.finalizeConnectTask, ok]

/-- The address that is written into the buffer. -/
def requested (address : InAddr) (port : Int) : SockaddrIn :=
  { sinFamily := BitVec.ofNat 16 AF_INET, sinPort := htons (BitVec.ofInt 16 port), sinAddr := address }

/-- Without a socket, or without an address, nothing is left of the call but its error. -/
theorem connect_refuses (s : Client) (port : Int)
    (refused : (∃ errno, env.socket = .error errno) ∨ env.inetPton (cStr ip) = none) :
    ∃ t, s.connect env ip port = .ok (none, t) ∧ Answered s env ip port (none, t) := by
  unfold Client.connect Client.prepareSocket
  cases answer : env.socket with
  | error errno => exact ⟨_, rfl, rfl, Or.inr ⟨errno, answer, rfl⟩⟩
  | ok sockfd =>
    have malformed : env.inetPton (cStr ip) = none := by
      apply refused.resolve_left
      rw [answer]
      nofun
    rw [malformed]
    exact ⟨_, rfl, List.erase_cons_head .., Or.inl rfl⟩

/-- With both, the rest of the call is about the task. -/
theorem connect_goes_on {sockfd : Nat} {address : InAddr} (socket : env.socket = .ok sockfd)
    (parsed : env.inetPton (cStr ip) = some address) : s.connect env ip port = do
      let (task, created) ← Client.createTaskWithHandler { s with opened := sockfd :: s.opened } env sockfd
      let (task, finished) ← created.finalizeConnectTask env task (requested address port)
      return (some task, finished) := by
  have valid : ¬ (sockfd : Int) < 0 := by omega
  simp only [Client.connect, Client.prepareSocket, socket, parsed, if_neg valid]
  rfl

theorem connect_throws {sockfd : Nat} {address : InAddr} (port : Int) (socket : env.socket = .ok sockfd)
    (parsed : env.inetPton (cStr ip) = some address) (exhausts : Exhausts s env) :
    ∃ thrown, s.connect env ip port = .error thrown := by
  obtain ⟨thrown, created⟩ := createTaskWithHandler_throws (s := { s with opened := sockfd :: s.opened })
    exhausts sockfd
  rw [connect_goes_on socket parsed, created]
  exact ⟨thrown, rfl⟩

theorem connect_prepares {sockfd : Nat} {address : InAddr} (port : Int) (socket : env.socket = .ok sockfd)
    (parsed : env.inetPton (cStr ip) = some address) (memory : ¬ Exhausts s env) :
    ∃ made, s.connect env ip port = .ok (some ⟨sockfd, .kConnect, s.connectTimeoutMs, env.storage⟩,
        { s with opened := sockfd :: s.opened, buffers := made }) ∧
      Holds made env.storage (requested address port) := by
  obtain ⟨first, created, size⟩ := createTaskWithHandler_ok (s := { s with opened := sockfd :: s.opened })
    memory sockfd
  obtain ⟨made, finished, holds⟩ := finalizeConnectTask_ok
    (s := { s with opened := sockfd :: s.opened, buffers := first }) env ⟨sockfd, .kNone, 0, env.storage⟩
    (requested address port) size
  refine ⟨made, ?_, holds⟩
  rw [connect_goes_on socket parsed, created]
  exact congrArg (· >>= fun done => pure (some done.1, done.2)) finished

/-- The handler takes the task for a connection to the port's lower sixteen bits. -/
theorem submitted_validates {task : NewTask} {made : Buffer.State} {address : InAddr}
    (holds : Holds made task.buffer (requested address port)) :
    (task.submitted made).validateConnectTask = true ↔
      0 < task.fd ∧ port % 2 ^ 16 ≠ 0 ∧ addressNumber address ≠ 0 := by
  have number := ntohs_htons_ofInt port
  have some_ : (ntohs (htons (BitVec.ofInt 16 port))).toNat ≠ 0 ↔ port % 2 ^ 16 ≠ 0 := by omega
  simp only [Handler.Task.validateConnectTask, NewTask.submitted, holds.address, holds.size, requested,
    Bool.and_eq_true, decide_eq_true_eq, some_]
  simp [AF_INET, and_assoc]

/-- With a socket, an address and memory the port decides. -/
theorem connect_port {sockfd : Nat} {address : InAddr} (socket : env.socket = .ok sockfd)
    (parsed : env.inetPton (cStr ip) = some address) (memory : ¬ Exhausts s env) :
    Fulfils s env ip port ↔ 0 ≤ port ∧ port < 2 ^ 16 := by
  obtain ⟨made, called, holds⟩ := connect_prepares port socket parsed memory
  have number := ntohs_htons_ofInt port
  constructor
  · rintro ⟨outcome, returned, answered⟩
    rw [called] at returned
    cases Except.ok.inj returned
    obtain ⟨-, -, -, same⟩ := answered
    rw [holds.address, requested, number] at same
    omega
  · intro fits
    refine ⟨_, called, rfl, ?_, ?_, ?_⟩ <;> rw [holds.address, requested]
    · rfl
    · exact parsed
    · rw [number]
      omega

/-- `Connect` does what was asked for exactly if it refuses to, or if the port fits into
sixteen bits and there is memory for the task. -/
theorem connect_fulfils_iff : Fulfils s env ip port ↔
    (∃ errno, env.socket = .error errno) ∨ env.inetPton (cStr ip) = none ∨
      (0 ≤ port ∧ port < 2 ^ 16) ∧ ¬ Exhausts s env := by
  by_cases refused : (∃ errno, env.socket = .error errno) ∨ env.inetPton (cStr ip) = none
  · obtain ⟨t, called, answered⟩ := connect_refuses s port refused
    exact iff_of_true ⟨_, called, answered⟩ (or_assoc.mp (Or.inl refused))
  · rw [← or_assoc, or_iff_right refused]
    rw [not_or] at refused
    obtain ⟨sockfd, socket⟩ : ∃ sockfd, env.socket = .ok sockfd := by
      cases answer : env.socket with
      | error errno => exact absurd ⟨errno, answer⟩ refused.1
      | ok sockfd => exact ⟨sockfd, rfl⟩
    obtain ⟨address, parsed⟩ := Option.ne_none_iff_exists'.mp refused.2
    by_cases exhausts : Exhausts s env
    · obtain ⟨thrown, called⟩ := connect_throws port socket parsed exhausts
      refine iff_of_false ?_ fun fits => fits.2 exhausts
      rintro ⟨outcome, returned, -⟩
      rw [called] at returned
      contradiction
    · rw [and_iff_left exhausts]
      exact connect_port socket parsed exhausts

/-- A system that knows one address. -/
def loopback : System where
  socket := .ok 5
  inetPton text := if text = "127.0.0.1" then some ![127, 0, 0, 1] else none
  strerror _ := "Success"

/-- Port 65616 becomes port 80. -/
theorem wide_port_wraps :
    ¬ ∀ (s : Client) (env : System) (ip : String) (port : Int), -2 ^ 31 ≤ port → port < 2 ^ 31 → ¬ Exhausts s env →
      Fulfils s env ip port := by
  intro claimed
  have memory : ¬ Exhausts {} loopback := by
    rintro (new | ⟨-, throws⟩)
    · contradiction
    · contradiction
  have fulfilled := claimed {} loopback "127.0.0.1" 65616 (by decide) (by decide) memory
  have whole : cStr "127.0.0.1" = "127.0.0.1" := by decide
  have parsed : loopback.inetPton (cStr "127.0.0.1") = some ![127, 0, 0, 1] := by
    simp only [loopback, whole, if_true]
  have fits := (connect_port rfl parsed memory).mp fulfilled
  omega

end Talon.Net
