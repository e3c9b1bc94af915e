import Talon.Net.SockaddrIn
import Mathlib.Data.List.Infix
import Mathlib.Data.List.Nodup

/-! `TcpServer` of async_io_tcp_server.hpp, from its constructor over any number of
`Start` to its destructor. -/
namespace Talon.Net

inductive SocketEvent where
  | opened (socket : Nat)
  | closed (socket : Nat)
  deriving DecidableEq

/-- The members, the server's open descriptors with the number of the socket behind each,
then history: how many sockets there were, and what became of them, latest first. -/
structure Server where
  tcpAcceptBacklog : Int := 4096
  listenFd : Int := -1
  port : Int := 8080
  lastError : String := ""
  table : List (Nat × Nat) := []
  sockets : Nat := 0
  log : List SocketEvent := []

/-- One `Start`, with the answers of `socket`, `bind` and `listen`: a descriptor or an
error number, and then an error number or nothing. -/
structure Call where
  port : Int
  socket : Except Int Nat
  bind : SockaddrIn → Option Int
  listen : Int → Option Int
  strerror : Int → String := fun _ => ""

namespace Server

/-- `socket` has returned `fd`. -/
def open_ (s : Server) (fd : Nat) : Server :=
  { s with
    listenFd := fd
    table := (fd, s.sockets) :: s.table
    sockets := s.sockets + 1
    log := .opened s.sockets :: s.log }

/-- A descriptor that is not open is left alone. -/
def close (s : Server) (fd : Int) : Server :=
  match s.table.find? fun entry => decide ((entry.1 : Int) = fd) with
  | some entry => { s with table := s.table.erase entry, log := .closed entry.2 :: s.log }
  | none => s

/-- `last_error_ = text; close(listen_fd_); listen_fd_ = -1` -/
def fail (s : Server) (text : String) : Server :=
  { s.close s.listenFd with lastError := text, listenFd := -1 }

/-- The address that `Init` binds to: `port` on every interface. -/
def address (port : Int) : SockaddrIn :=
  { sinFamily := BitVec.ofNat 16 AF_INET, sinPort := htons (BitVec.ofInt 16 port) }

def init (s : Server) (call : Call) : Bool × Server :=
  match call.socket with
  | .error errno => (false, { s with listenFd := -1, lastError := "socket() failed: " ++ call.strerror errno })
  | .ok fd =>
      let opened := s.open_ fd
      match call.bind (address opened.port) with
      | some errno => (false, opened.fail ("bind() failed: " ++ call.strerror errno))
      | none =>
          match call.listen opened.tcpAcceptBacklog with
          | some errno => (false, opened.fail ("listen() failed: " ++ call.strerror errno))
          | none => (true, opened)

def start (s : Server) (call : Call) : Bool × Server := { s with port := call.port }.init call

/-- `~TcpServer()` -/
def destruct (s : Server) : Server := if 0 ≤ s.listenFd then s.close s.listenFd else s

end Server

/-- `socket` returns a descriptor that is not open. -/
def Fresh (s : Server) (call : Call) : Prop := ∀ fd, call.socket = .ok fd → fd ∉ s.table.map Prod.fst

/-- The server after some calls of `Start`, and what each of them returned. -/
inductive Started (backlog : Int) : List Call → List Bool → Server → Prop where
  | nil : Started backlog [] [] { tcpAcceptBacklog := backlog }
  | next (earlier : Started backlog calls results s) (fresh : Fresh s call) :
      Started backlog (calls ++ [call]) (results ++ [(s.start call).1]) (s.start call).2

def Call.Succeeds (call : Call) (backlog : Int) : Prop :=
  (∃ fd, call.socket = .ok fd) ∧ call.bind (Server.address call.port) = none ∧ call.listen backlog = none

/-- The sockets that were opened and not closed. -/
def standing : List SocketEvent → List Nat
  | [] => []
  | .opened n :: log => n :: standing log
  | .closed n :: log => (standing log).erase n

/-- There was never more than one open socket. -/
def Alone (log : List SocketEvent) : Prop := ∀ earlier, earlier <:+ log → (standing earlier).length ≤ 1

/-- The server knows whether it listens, and its sockets are closed once each and before
the next one. -/
structure Lawful (results : List Bool) (s : Server) : Prop where
  listening : 0 ≤ s.listenFd ↔ results.getLast? = some true
  closed : ∀ n, .opened n ∈ s.destruct.log → s.destruct.log.count (.closed n) = 1
  alone : Alone s.destruct.log

variable {backlog : Int} {calls : List Call} {results : List Bool} {s : Server} {call : Call}

/-! ### One call -/

/-- What `Start` returns and leaves behind. -/
inductive Outcome (s : Server) (call : Call) : Bool × Server → Prop where
  | socketless (failed : ¬ call.Succeeds s.tcpAcceptBacklog) (text : String) :
      Outcome s call (false, { s with port := call.port, listenFd := -1, lastError := text })
  | refused (failed : ¬ call.Succeeds s.tcpAcceptBacklog) (text : String) :
      Outcome s call (false, { s with
        port := call.port, listenFd := -1, lastError := text, sockets := s.sockets + 1
        log := .closed s.sockets :: .opened s.sockets :: s.log })
  | listens (succeeded : call.Succeeds s.tcpAcceptBacklog) (fd : Nat) (socket : call.socket = .ok fd) :
      Outcome s call (true, { s with port := call.port }.open_ fd)

/-- The socket that was just opened is the one that is closed. -/
theorem open_fail (s : Server) (fd : Nat) (text : String) :
    (s.open_ fd).fail text = { s with
      listenFd := -1, lastError := text, sockets := s.sockets + 1
      log := .closed s.sockets :: .opened s.sockets :: s.log } := by
  simp [Server.fail, Server.close, Server.open_]

theorem start_outcome (s : Server) (call : Call) : Outcome s call (s.start call) := by
  unfold Server.start Server.init
  cases socket : call.socket with
  | error errno =>
    refine .socketless ?_ _
    rintro ⟨⟨fd, opened⟩, -⟩
    rw [socket] at opened
    contradiction
  | ok fd =>
    simp only [open_fail]
    split
    · next errno unbound =>
      refine .refused ?_ _
      rintro ⟨-, bound, -⟩
      cases unbound.symm.trans bound
    · next bound =>
      split
      · next errno deaf =>
        refine .refused ?_ _
        rintro ⟨-, -, heard⟩
        cases deaf.symm.trans heard
      · next heard =>
        have succeeded : call.Succeeds s.tcpAcceptBacklog := ⟨⟨fd, socket⟩, bound, heard⟩
        exact .listens succeeded fd socket

theorem Started.backlog_eq (run : Started backlog calls results s) : s.tcpAcceptBacklog = backlog := by
  induction run with
  | nil => rfl
  | @next calls results s call earlier fresh ih =>
    have outcome := start_outcome s call
    generalize s.start call = after at outcome
    cases outcome with
    | socketless => exact ih
    | refused => exact ih
    | listens => exact ih

theorem Started.listening (run : Started backlog calls results s) :
    0 ≤ s.listenFd ↔ results.getLast? = some true := by
  cases run with
  | nil => simp
  | @next calls results s call earlier fresh =>
    have outcome := start_outcome s call
    generalize s.start call = after at outcome
    rw [List.getLast?_concat]
    cases outcome with
    | socketless => simp
    | refused => simp
    | listens succeeded fd socket => simp [Server.open_]

/-! ### Calls that fail -/

/-- Every socket was closed before the next one was opened. -/
structure Balanced (log : List SocketEvent) (sockets : Nat) : Prop where
  closed : ∀ n, .opened n ∈ log → log.count (.closed n) = 1
  bound : ∀ n, .opened n ∈ log ∨ .closed n ∈ log → n < sockets
  standing : standing log = []
  alone : Alone log

theorem alone_cons {event : SocketEvent} {log : List SocketEvent} (alone : Alone log)
    (one : (standing (event :: log)).length ≤ 1) : Alone (event :: log) := by
  intro earlier within
  rcases List.suffix_cons_iff.mp within with rfl | within
  · exact one
  · exact alone earlier within

theorem Balanced.next {log : List SocketEvent} {n : Nat} (balanced : Balanced log n) :
    Balanced (.closed n :: .opened n :: log) (n + 1) := by
  have unclosed : .closed n ∉ log := fun closed => Nat.lt_irrefl n (balanced.bound n (Or.inr closed))
  refine ⟨fun k opened => ?_, fun k known => ?_, ?_, ?_⟩
  · by_cases here : k = n
    · subst here
      simp [List.count_eq_zero.mpr unclosed]
    · have earlier : .opened k ∈ log := by simpa [here] using opened
      have different : ¬ n = k := fun same => here same.symm
      simpa [List.count_cons, different] using balanced.closed k earlier
  · by_cases here : k = n
    · omega
    · have earlier : .opened k ∈ log ∨ .closed k ∈ log := by simpa [here] using known
      exact Nat.lt_succ_of_lt (balanced.bound k earlier)
  · simp [Net.standing, balanced.standing]
  · refine alone_cons (alone_cons balanced.alone ?_) ?_
    · simp [Net.standing, balanced.standing]
    · simp [Net.standing, balanced.standing]

/-- Nothing is open and nothing is forgotten. -/
structure Quiet (s : Server) : Prop where
  table : s.table = []
  listenFd : s.listenFd = -1
  balanced : Balanced s.log s.sockets

theorem quiet_of_failures (run : Started backlog calls results s) (failed : ∀ call ∈ calls, ¬ call.Succeeds backlog) :
    Quiet s := by
  induction run with
  | nil =>
    refine ⟨rfl, rfl, nofun, nofun, rfl, fun earlier within => ?_⟩
    rw [List.suffix_nil.mp within]
    decide
  | @next calls results s call earlier fresh ih =>
    have quiet := ih fun call member => failed call (List.mem_append_left _ member)
    have fails := failed call List.mem_concat_self
    have outcome := start_outcome s call
    rw [← earlier.backlog_eq] at fails
    generalize s.start call = after at outcome
    cases outcome with
    | socketless => exact ⟨quiet.table, rfl, quiet.balanced⟩
    | refused => exact ⟨quiet.table, rfl, quiet.balanced.next⟩
    | listens succeeded => exact absurd succeeded fails

/-- After failures one more call does no harm. -/
theorem Quiet.start (quiet : Quiet s) (call : Call) :
    ∃ sockets, Balanced (s.start call).2.destruct.log sockets := by
  have outcome := start_outcome s call
  generalize s.start call = after at outcome
  cases outcome with
  | socketless => exact ⟨_, quiet.balanced⟩
  | refused => exact ⟨_, quiet.balanced.next⟩
  | listens succeeded fd socket =>
    refine ⟨s.sockets + 1, ?_⟩
    have closed : ({ s with port := call.port }.open_ fd).destruct.log =
        .closed s.sockets :: .opened s.sockets :: s.log := by
      simp [Server.destruct, Server.close, Server.open_]
    rw [closed]
    exact quiet.balanced.next

/-! ### A call after one that succeeded -/

/-- An open socket is an open socket, and the server's own descriptor is among them. -/
structure Kept (s : Server) : Prop where
  fds : (s.table.map Prod.fst).Nodup
  numbers : (s.table.map Prod.snd).Nodup
  unclosed : ∀ entry ∈ s.table, .opened entry.2 ∈ s.log ∧ .closed entry.2 ∉ s.log ∧ entry.2 < s.sockets
  past : ∀ n, .closed n ∈ s.log → n < s.sockets
  own : 0 ≤ s.listenFd → ∃ entry ∈ s.table, (entry.1 : Int) = s.listenFd

/-- The server has lost the descriptor of an open socket. -/
def Orphan (s : Server) : Prop := ∃ entry ∈ s.table, (entry.1 : Int) ≠ s.listenFd

theorem Kept.start (kept : Kept s) (fresh : Fresh s call) : Kept (s.start call).2 := by
  have outcome := start_outcome s call
  generalize s.start call = after at outcome
  cases outcome with
  | socketless => exact ⟨kept.fds, kept.numbers, kept.unclosed, kept.past, nofun⟩
  | refused =>
    refine ⟨kept.fds, kept.numbers, fun entry member => ?_, fun n closed => ?_, nofun⟩
    · obtain ⟨opened, unclosed, older⟩ := kept.unclosed entry member
      have different : entry.2 ≠ s.sockets := Nat.ne_of_lt older
      simp [opened, unclosed, different, Nat.lt_succ_of_lt older]
    · rcases List.mem_cons.mp closed with same | closed
      · cases same
        exact Nat.lt_succ_self _
      · have earlier : .closed n ∈ s.log := by simpa using closed
        exact Nat.lt_succ_of_lt (kept.past n earlier)
  | listens succeeded fd socket =>
    have new : s.sockets ∉ s.table.map Prod.snd := by
      intro known
      obtain ⟨entry, member, same⟩ := List.mem_map.mp known
      exact Nat.ne_of_lt (kept.unclosed entry member).2.2 same
    refine ⟨?_, ?_, fun entry member => ?_, fun n closed => ?_, fun _ => ⟨_, List.mem_cons_self, rfl⟩⟩
    · exact List.nodup_cons.mpr ⟨fresh fd socket, kept.fds⟩
    · exact List.nodup_cons.mpr ⟨new, kept.numbers⟩
    · rcases List.mem_cons.mp member with rfl | member
      · refine ⟨List.mem_cons_self, fun closed => ?_, Nat.lt_succ_self _⟩
        have earlier : .closed s.sockets ∈ s.log := by simpa [Server.open_] using closed
        exact Nat.lt_irrefl _ (kept.past _ earlier)
      · obtain ⟨opened, unclosed, older⟩ := kept.unclosed entry member
        refine ⟨List.mem_cons_of_mem _ opened, fun closed => ?_, Nat.lt_succ_of_lt older⟩
        exact unclosed (by simpa [Server.open_] using closed)
    · have earlier : .closed n ∈ s.log := by simpa [Server.open_] using closed
      exact Nat.lt_succ_of_lt (kept.past n earlier)

theorem Started.kept (run : Started backlog calls results s) : Kept s := by
  induction run with
  | nil => exact ⟨List.nodup_nil, List.nodup_nil, nofun, nofun, nofun⟩
  | next earlier fresh ih => exact ih.start fresh

/-- `Start` never looks at the descriptor it overwrites. -/
theorem orphan_start (fresh : Fresh s call) (some_ : s.table ≠ []) : Orphan (s.start call).2 := by
  obtain ⟨entry, member⟩ := List.exists_mem_of_ne_nil _ some_
  refine ⟨entry, ?_⟩
  have outcome := start_outcome s call
  generalize s.start call = after at outcome
  cases outcome with
  | socketless => exact ⟨member, by simp only; omega⟩
  | refused => exact ⟨member, by simp only; omega⟩
  | listens succeeded fd socket =>
    refine ⟨List.mem_cons_of_mem _ member, fun same => fresh fd socket ?_⟩
    have here : entry.1 = fd := Int.ofNat_inj.mp same
    exact here ▸ List.mem_map_of_mem member

theorem table_of_success (run : Started backlog calls results s) (success : ∃ call ∈ calls, call.Succeeds backlog) :
    s.table ≠ [] := by
  induction run with
  | nil =>
    obtain ⟨call, member, -⟩ := success
    contradiction
  | @next calls results s call earlier fresh ih =>
    obtain ⟨other, member, succeeds⟩ := success
    rw [← earlier.backlog_eq] at succeeds ih
    have before : ¬ call.Succeeds s.tcpAcceptBacklog → s.table ≠ [] := by
      intro failed
      rcases List.mem_append.mp member with member | member
      · exact ih ⟨other, member, succeeds⟩
      · rw [List.mem_singleton.mp member] at succeeds
        contradiction
    have outcome := start_outcome s call
    generalize s.start call = after at outcome
    cases outcome with
    | socketless failed => exact before failed
    | refused failed => exact before failed
    | listens => exact List.cons_ne_nil _ _

/-- The destructor closes another socket than the one that was lost. -/
theorem Orphan.unclosed (orphan : Orphan s) (kept : Kept s) :
    ∃ n, .opened n ∈ s.destruct.log ∧ s.destruct.log.count (.closed n) = 0 := by
  obtain ⟨entry, member, lost⟩ := orphan
  obtain ⟨opened, unclosed, -⟩ := kept.unclosed entry member
  refine ⟨entry.2, ?_⟩
  have same : .opened entry.2 ∈ s.log ∧ s.log.count (.closed entry.2) = 0 :=
    ⟨opened, List.count_eq_zero.mpr unclosed⟩
  unfold Server.destruct Server.close
  split
  · split
    · next other found =>
      have here := List.find?_some found
      have different : other.2 ≠ entry.2 := by
        intro equal
        have entries := List.inj_on_of_nodup_map kept.numbers (List.mem_of_find?_eq_some found) member equal
        rw [entries] at here
        exact lost (of_decide_eq_true here)
      simpa [different] using same
    · exact same
  · exact same

/-- Sockets are closed once each, and before the next one is opened, exactly if no
`Start` follows one that succeeded. -/
theorem started_lawful_iff (run : Started backlog calls results s) :
    Lawful results s ↔ ∀ call ∈ calls.dropLast, ¬ call.Succeeds backlog := by
  cases run with
  | nil =>
    have run : Started backlog [] [] _ := .nil
    have quiet := quiet_of_failures run nofun
    exact iff_of_true ⟨run.listening, quiet.balanced.closed, quiet.balanced.alone⟩ nofun
  | @next calls results s call earlier fresh =>
    rw [List.dropLast_concat]
    constructor
    · intro lawful other member succeeds
      have orphan := orphan_start fresh (table_of_success earlier ⟨other, member, succeeds⟩)
      obtain ⟨n, opened, unclosed⟩ := orphan.unclosed (earlier.kept.start fresh)
      have once := lawful.closed n opened
      omega
    · intro failed
      obtain ⟨sockets, balanced⟩ := (quiet_of_failures earlier failed).start call
      exact ⟨(Started.next earlier fresh).listening, balanced.closed, balanced.alone⟩

/-- A call that gets descriptor `fd` and is refused by `bind` with the given number. -/
def Call.answered (port : Int) (fd : Nat) (refusal : Option Int) : Call where
  port := port
  socket := .ok fd
  bind _ := refusal
  listen _ := none

theorem second_try_lawful :
    ∃ results s, Started 128 [.answered 8080 5 (some 98), .answered 8080 5 none] results s ∧ Lawful results s := by
  have first : Started 128 [.answered 8080 5 (some 98)] _ _ := .next .nil fun _ _ => List.not_mem_nil
  have second : Started 128 [.answered 8080 5 (some 98), .answered 8080 5 none] _ _ :=
    .next first fun _ _ => List.not_mem_nil
  refine ⟨_, _, second, (started_lawful_iff second).mpr fun call member => ?_⟩
  rw [List.mem_singleton.mp member]
  rintro ⟨-, bound, -⟩
  contradiction

/-- The first of two sockets, each on a port of its own, stays open for good. -/
theorem restarted_leaks :
    ¬ ∀ (backlog : Int) (calls : List Call) (results : List Bool) (s : Server),
      Started backlog calls results s → Lawful results s := by
  intro claimed
  have first : Started 128 [.answered 8080 5 none] _ _ := .next .nil fun _ _ => List.not_mem_nil
  have fresh : Fresh ({ tcpAcceptBacklog := 128 : Server }.start (.answered 8080 5 none)).2 (.answered 8081 6 none) := by
    intro fd socket
    cases Except.ok.inj socket
    decide
  have lawful := claimed _ _ _ _ (.next first fresh)
  exact absurd (lawful.closed 0 (by decide)) (by decide)

end Talon.Net
