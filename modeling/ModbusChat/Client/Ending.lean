import ModbusChat.Client.Lifecycle

set_option autoImplicit false

-- Once the client is told to stop, its threads have a bounded number of steps left. What can still
-- keep them waiting is the user, the network or a server that has not been cut off, but never the
-- join.

namespace ModbusChat.Client

open BigEndian Common Effects PeerKeyStore Wire

-- The steps that `main` makes at most once the client is told to stop.
def MainPhase.remaining : MainPhase → Nat
  | .initLogger => 17
  | .loadOrCreateIdentity => 16
  | .connectToServer => 15
  | .receiveAssignedId | .readLine => 14
  | .inputLoop => 13
  | .announceExit => 12
  | .requestShutdown => 11
  | .forgetViewModel => 10
  | .stopOutput => 9
  | .shutdown => 8
  | .joinReceiver => 7
  | .saveKeystore => 6
  | .writeKeystore .. => 5
  | .closeSocket => 4
  | .clearSocket => 3
  | .closeLogger => 2
  | .handleFailure => 1
  | .exited | .terminated => 0

-- As for `main`; a thread that is not there yet may still be started.
def ReceiverPhase.remaining : ReceiverPhase → Nat
  | .absent | .receiving => 5
  | .claiming => 4
  | .announcing => 3
  | .withdrawing => 2
  | .looping => 1
  | .finished => 0

def MainPhase.talking : MainPhase → Bool
  | .receiveAssignedId | .inputLoop | .readLine => true
  | _ => false

namespace Process

variable {cipher : Monocypher} {process later : Process} {event : ProcessEvent}
  {effects : List ProcessEffect}

section Counting

def remaining (process : Process) : Nat := process.main.remaining + process.receiver.remaining

-- A step of one of the two threads, from the return of one call that can wait to the next.
def Advances (process : Process) (event : ProcessEvent) : Prop :=
  match event with
  | .main _ | .receiver _ => ¬ process.Blocked event
  | .urandom .. | .signal | .hangUp => False

instance (process : Process) (event : ProcessEvent) : Decidable (process.Advances event) :=
  match event with
  | .main replies => inferInstanceAs (Decidable (¬ process.Blocked (.main replies)))
  | .receiver incoming => inferInstanceAs (Decidable (¬ process.Blocked (.receiver incoming)))
  | .urandom .. | .signal | .hangUp => .isFalse id

theorem Moved.remaining (moved : Moved cipher process event later effects) (phased : process.Phased)
    (stopped : process.client.running = false) :
    later.client.running = false ∧ later.remaining ≤ process.remaining ∧
      (process.Advances event → later.remaining < process.remaining) := by
  have closer (still : later.client.running = false) (less : later.remaining < process.remaining) :
      later.client.running = false ∧ later.remaining ≤ process.remaining ∧
        (process.Advances event → later.remaining < process.remaining) :=
          ⟨still, less.le, fun _ => less⟩
  cases moved with
  | rests blocked =>
    refine ⟨stopped, le_rfl, fun advances => ?_⟩
    cases event with
    | main replies | receiver incoming => exact absurd blocked advances
    | urandom thread opened | signal | hangUp => exact advances.elim
  | isInterrupted installed => exact ⟨rfl, le_rfl, False.elim⟩
  | isCutOff | opensUrandom may unused | closesUrandom stream spares =>
    exact ⟨stopped, le_rfl, False.elim⟩
  | prompts phase running =>
    rw [stopped] at running
    cases running
  | identifies phase reports =>
    exact closer ((identified cipher process).stays stopped)
      (by simp [Process.remaining, phase, MainPhase.remaining])
  | starts phase handled =>
    have absent := phased.unstarted (by rw [phase]; rfl)
    exact closer (handled.stays stopped)
      (by simp [Process.remaining, phase, absent, MainPhase.remaining, ReceiverPhase.remaining])
  | throws phase handled =>
    exact closer (handled.stays stopped)
      (by rcases phase with phase | phase <;> simp [Process.remaining, phase, MainPhase.remaining])
  | takesLine phase handled =>
    exact closer (handled.stays stopped) (by simp [Process.remaining, phase, MainPhase.remaining])
  | takesFrame phase handled =>
    exact closer (handled.stays stopped)
      (by simp [Process.remaining, phase, ReceiverPhase.remaining])
  | leavesLoop phase =>
    exact closer stopped
      (by rcases phase with
        ⟨phase, -⟩ | phase <;> simp [Process.remaining, phase, MainPhase.remaining])
  | shutsDown phase =>
    exact closer rfl
      (by rcases phase with
        ⟨phase, rfl⟩ | ⟨phase, rfl⟩ <;> simp [Process.remaining, phase, MainPhase.remaining])
  | closesLogger phase further =>
    exact closer stopped
      (by split at further <;> simp [Process.remaining, phase, further, MainPhase.remaining])
  | checksRunning phase =>
    exact closer stopped (by simp [Process.remaining, phase, stopped, ReceiverPhase.remaining])
  | losesServer phase | claimsExit phase | comesLate phase | saysServerLost phase =>
    exact closer stopped (by simp [Process.remaining, phase, ReceiverPhase.remaining])
  | receiverShutsDown phase =>
    exact closer rfl (by simp [Process.remaining, phase, ReceiverPhase.remaining])
  | runsUnlogged phase | opensLog phase | connects phase | getsNoSocket phase | isRefused phase
  | skipsLine phase | saysFarewell phase | forgets phase | stopsOutput phase | joins phase
  | savesNothing phase | opensKeystore phase | writesKeystore phase | closesSocket phase
  | hasNoSocket phase | clearsSocket phase | handlesFailure phase =>
    exact closer stopped (by simp [Process.remaining, phase, MainPhase.remaining])

def threadSteps (cipher : Monocypher) : Process → List ProcessEvent → Nat
  | _, [] => 0
  | process, event :: events =>
      (if process.Advances event then 1 else 0) + threadSteps cipher
        (process.step cipher event) events

theorem threadSteps_le (phased : process.Phased) (stopped : process.client.running = false)
    (events : List ProcessEvent) :
    process.threadSteps cipher events + (process.after cipher events).remaining ≤
      process.remaining := by
  induction events generalizing process with
  | nil => simp [threadSteps, after]
  | cons event events ih =>
    have step := moved cipher process event
    obtain ⟨still, fewer, less⟩ := step.remaining phased stopped
    have rest := ih (step.phased phased) still
    rw [threadSteps, after, List.foldl_cons]
    rw [after] at rest
    split
    · have := less ‹_›
      omega
    · omega

theorem remaining_le (process : Process) : process.remaining ≤ 22 := by
  have main : process.main.remaining ≤ 17 := by cases process.main <;> simp [MainPhase.remaining]
  have receiver : process.receiver.remaining ≤ 5 := by
    cases process.receiver <;> simp [ReceiverPhase.remaining]
  rw [Process.remaining]
  omega

end Counting

section Waiting

-- The number that a step is given for a file it opens.
def given (process : Process) : ProcessEvent → Option Descriptor
  | .main replies =>
      match process.main with
      | .initLogger => replies.log
      | .connectToServer => replies.connecting.socket
      | .saveKeystore => replies.keystore
      | _ => none
  | .urandom _ opened => opened
  | _ => none

-- The kernel gives out a number that is not in use.
def Kernel (process : Process) (event : ProcessEvent) : Prop :=
  (process.given event).all fun fd => 0 ≤ fd ∧ process.descriptors.lookup fd = none

instance (process : Process) (event : ProcessEvent) : Decidable (process.Kernel event) :=
  inferInstanceAs (Decidable (Option.all _ _ = true))

theorem Kernel.fresh (kernel : process.Kernel event) {fd : Descriptor}
    (given : process.given event = some fd) :
    0 ≤ fd ∧ process.descriptors.lookup fd = none := by
  simpa [Kernel, given] using kernel

-- While the connection is up, both numbers stand for the socket; `main` shuts it down before it
-- joins.
structure Tied (process : Process) : Prop where
  copy : process.socketFd = process.sessionFd
  live : process.main.talking ∨ process.receiver.idle = false → 0 ≤ process.sessionFd
  target : process.client.online → 0 ≤ process.sessionFd → process.target = some .socket
  severed : process.main = .joinReceiver → process.receiver.idle = false →
    process.client.online = false

theorem start_tied (config : ClientConfig) (keystore : Option Bytes) (random : Nat → UInt8) :
    (start config keystore random).Tied where
  copy := rfl
  live := by simp [start, MainPhase.talking, ReceiverPhase.idle]
  target := fun _ valid => absurd (show (0 : Int32) ≤ -1 from valid) (by decide)
  severed := by simp [start]

theorem Tied.of_same (tied : process.Tied) (sessionFd : later.sessionFd = process.sessionFd)
    (socketFd : later.socketFd = process.socketFd)
    (target : later.client.online → process.client.online ∧
      (process.target = some .socket → later.descriptors.lookup process.sessionFd = some .socket))
    (talking : later.main.talking → process.main.talking)
    (idle : later.receiver.idle = false → process.receiver.idle = false ∨ process.main.talking)
    (join : later.main = .joinReceiver → later.receiver.idle = false →
      process.main = .joinReceiver ∧ process.receiver.idle = false ∨ later.client.online = false) :
    later.Tied where
  copy := by rw [sessionFd, socketFd, tied.copy]
  live either := by
    rw [sessionFd]
    exact tied.live (either.elim (fun still => .inl (talking still)) fun still => (idle still).symm)
  target online valid := by
    obtain ⟨before, kept⟩ := target online
    rw [Process.target, sessionFd]
    exact kept (tied.target before (sessionFd ▸ valid))
  severed waits still := by
    obtain ⟨waited, busy⟩ | cut := join waits still
    · by_contra online
      have before := (target (by simpa using online)).1
      rw [tied.severed waited busy] at before
      cases before
    · exact cut

theorem Spares.target {online : Bool} {numbers : List Descriptor}
    (spares : process.Spares numbers online)
    (still : online) {fd : Descriptor} (member : fd ∈ numbers)
    (socket : process.target = some .socket) :
    (process.descriptors.erase fd).lookup process.sessionFd = some .socket := by
  have other : process.sessionFd ≠ fd := fun same =>
    (spares still).2 fd member (same ▸ socket)
  rw [Table.lookup_erase_eq, if_neg other]
  exact socket

theorem Kernel.target (kernel : process.Kernel event) {fd : Descriptor} {file : OpenFile}
    (given : process.given event = some fd) (socket : process.target = some .socket) :
    (process.descriptors.insert fd file).lookup process.sessionFd = some .socket := by
  have other : process.sessionFd ≠ fd := fun same => by
    have fresh := (kernel.fresh given).2
    rw [← same, ← Process.target, socket] at fresh
    cases fresh
  rw [Table.lookup_insert_eq, if_neg other]
  exact socket

-- A thread that is still there has a socket, which the shutdown reaches.
theorem Tied.shut (tied : process.Tied) {unblockStdin online : Bool}
    (spares : process.Spares (process.shutNumbers unblockStdin) online)
    (busy : process.receiver.idle = false) : online = false := by
  by_contra still
  obtain ⟨before, untouched⟩ := spares (by simpa using still)
  have valid := tied.live (.inr busy)
  refine untouched process.socketFd ?_ (tied.copy ▸ tied.target before valid)
  simp [shutNumbers, tied.copy, valid]

theorem Moved.tied (moved : Moved cipher process event later effects) (phased : process.Phased)
    (kernel : process.Kernel event) (tied : process.Tied) : later.Tied := by
  cases moved with
  | rests blocked => exact tied
  | connects phase given =>
    obtain ⟨valid, -⟩ := kernel.fresh (by simpa [Process.given, phase] using given)
    have absent := phased.unstarted (by rw [phase]; rfl)
    exact ⟨rfl, fun _ => valid, fun _ _ => AList.lookup_insert _, by simp⟩
  | clearsSocket phase =>
    have idle := phased.joined (by rw [phase]; rfl)
    exact ⟨rfl, by simp [MainPhase.talking, idle], fun _ valid =>
      absurd (show (0 : Int32) ≤ -1 from valid) (by decide), by simp⟩
  | opensLog phase given =>
    exact tied.of_same rfl rfl
      (fun online => ⟨online, kernel.target (by simpa [Process.given, phase] using given)⟩)
      (by simp [MainPhase.talking]) .inl (by simp)
  | opensKeystore phase given =>
    exact tied.of_same rfl rfl
      (fun online => ⟨online, kernel.target (by simpa [Process.given, phase] using given)⟩)
      (by simp [MainPhase.talking]) .inl (by simp)
  | opensUrandom may unused =>
    exact tied.of_same rfl rfl (fun online => ⟨online, kernel.target rfl⟩) id .inl fun waits busy =>
      .inl ⟨waits, busy⟩
  | closesUrandom stream spares =>
    exact tied.of_same rfl rfl (fun online => ⟨(spares online).1, spares.target online (by simp)⟩)
      id .inl
      fun waits busy => .inl ⟨waits, busy⟩
  | isRefused phase given =>
    exact tied.of_same rfl rfl (by simp) (by simp [MainPhase.talking]) .inl (by simp)
  | writesKeystore phase reports spares | closesSocket phase connected spares =>
    exact tied.of_same rfl rfl (fun online => ⟨(spares online).1, spares.target online (by simp)⟩)
      (by simp [MainPhase.talking]) .inl (by simp)
  | closesLogger phase further spares =>
    refine tied.of_same rfl rfl (fun online => ⟨(spares online).1, fun socket => ?_⟩) ?_ .inl ?_
    · cases logged : process.logFd with
      | none => exact socket
      | some fd => exact spares.target online (by simp [logged]) socket
    · split at further <;> simp [further, MainPhase.talking]
    · split at further <;> simp [further]
  | isInterrupted installed spares =>
    exact tied.of_same rfl rfl
      (fun online => ⟨(spares online).1, spares.target online (by simp [shutNumbers])⟩) id .inl
      fun waits busy => .inl ⟨waits, busy⟩
  | receiverShutsDown phase spares =>
    exact tied.of_same rfl rfl
      (fun online => ⟨(spares online).1, spares.target online (by simp [shutNumbers])⟩) id
      (by simp [ReceiverPhase.idle]) (by simp [ReceiverPhase.idle])
  | shutsDown phase spares =>
    refine tied.of_same rfl rfl (fun online => ⟨(spares online).1, id⟩) ?_ .inl fun _ busy =>
      .inr (tied.shut spares busy)
    rcases phase with ⟨-, rfl⟩ | ⟨-, rfl⟩ <;> simp [MainPhase.talking]
  | isCutOff =>
    exact tied.of_same rfl rfl (by simp) id .inl (by simp)
  | throws phase handled =>
    exact tied.of_same rfl rfl (fun online => ⟨handled.online ▸ online, id⟩)
      (by simp [MainPhase.talking]) .inl
      (by simp)
  | starts phase handled | takesLine phase handled =>
    exact tied.of_same rfl rfl (fun online => ⟨handled.online ▸ online, id⟩)
      (by simp [phase, MainPhase.talking]) (by simp [phase, MainPhase.talking]) (by simp)
  | takesFrame phase handled =>
    exact tied.of_same rfl rfl (fun online => ⟨handled.online ▸ online, id⟩) id
      (by simp [phase, ReceiverPhase.idle]) fun waits _ =>
        .inl ⟨waits, by simp [phase, ReceiverPhase.idle]⟩
  | identifies phase reports =>
    exact tied.of_same rfl rfl (fun online => ⟨(identified cipher process).online ▸ online, id⟩)
      (by simp [MainPhase.talking]) .inl (by simp)
  | checksRunning phase | losesServer phase | claimsExit phase | comesLate phase
  | saysServerLost phase =>
    exact tied.of_same rfl rfl (fun online => ⟨online, id⟩) id (by simp [phase, ReceiverPhase.idle])
      fun waits busy => .inl ⟨waits, by simp [phase, ReceiverPhase.idle]⟩
  | _ =>
    exact tied.of_same rfl rfl (fun online => ⟨online, id⟩) (by simp_all [MainPhase.talking])
      .inl (by simp)

-- The calls of `main` that only the user, the network or the server ends: closing the input does
-- not wake a `getline` that is already waiting.
def Attends (process : Process) : Prop :=
  process.main = .connectToServer ∨ process.main = .receiveAssignedId ∧ process.client.online ∨
    process.main = .readLine

-- A step that waits for nobody.
def Proceeds (process : Process) (event : ProcessEvent) : Prop :=
  match event with
  | .main _ => process.Advances event ∧ ¬ process.Attends
  | .receiver _ =>
    process.Advances event ∧ ¬ (process.receiver = .receiving ∧ process.client.online)
  | .urandom thread _ => process.urandom thread ≠ none
  | .signal | .hangUp => False

-- Nobody waits for a thread that waits itself.
theorem ended_or_proceeds (alive : process.main ≠ .terminated) (tied : process.Tied) :
    process.main = .exited ∨ process.Attends ∨ ∃ event, process.Proceeds event := by
  by_cases ended : process.main = .exited
  · exact .inl ended
  by_cases attends : process.Attends
  · exact .inr (.inl attends)
  refine .inr (.inr ?_)
  by_cases drawing : ∃ thread, process.urandom thread ≠ none
  · obtain ⟨thread, stream⟩ := drawing
    exact ⟨.urandom thread none, stream⟩
  push Not at drawing
  by_cases joins : process.main = .joinReceiver ∧ process.receiver.idle = false
  · -- the receive thread is the one to go on, as `main` has shut down its socket
    have busy := mt (ReceiverPhase.idle_iff process.receiver).mpr (by simp [joins.2])
    have cut := tied.severed joins.1 joins.2
    refine ⟨.receiver none, ?_, by simp [cut]⟩
    simp only [Advances, Blocked, alive, drawing, false_or, ne_eq, not_true_eq_false, or_false]
    exact busy
  · refine ⟨.main {}, ?_, attends⟩
    have free :
        ¬ (process.main = .joinReceiver ∧ process.receiver ≠ .absent ∧
          process.receiver ≠ .finished) :=
      fun waits => joins ⟨waits.1, by simpa [waits.2] using ReceiverPhase.idle_iff process.receiver⟩
    simp [Advances, Blocked, alive, ended, drawing, free]

end Waiting

end Process

open Process

/--
Once the client is told to stop, its two threads make at most 22 more steps, whatever else happens.
Until it is over, `main` is in a call that the user, the network or the server has to end, or one of
the threads can make a step for which it waits for nobody; in particular the join does not wait for
ever.
-/
theorem client_ends (cipher : Monocypher) (config : ClientConfig) (keystore : Option Bytes)
    (random : Nat → UInt8) (before events : List ProcessEvent)
    (numbers : Runs.Admissible Kernel (step cipher) (start config keystore random)
      (before ++ events))
    (stopped : ((start config keystore random).after cipher before).client.running = false) :
    let process := (start config keystore random).after cipher before
    let later := process.after cipher events
    process.threadSteps cipher events ≤ 22 ∧
      (later.main = .exited ∨ later.Attends ∨ ∃ event, later.Proceeds event) := by
  have phased := @after_invariant cipher _ Phased (fun _ _ _ _ phased moved => moved.phased phased)
    (start_phased config keystore random) before
  have few := @threadSteps_le cipher _ phased stopped events
  have bound := remaining_le ((start config keystore random).after cipher before)
  have reachable : Runs.Reachable (· = start config keystore random) Kernel (step cipher)
      ((before ++ events).foldl (step cipher) (start config keystore random)) :=
    .foldl (.start rfl) numbers
  obtain ⟨alive, -, tied⟩ := reachable.invariant
    (fun process => process.main ≠ .terminated ∧ process.Phased ∧ process.Tied)
    (by rintro _ rfl; exact ⟨by simp [start], start_phased _ _ _, start_tied _ _ _⟩)
    (fun process event holds kernel =>
      have moved := moved cipher process event
      ⟨moved.alive holds.1, moved.phased holds.2.1, moved.tied holds.2.1 kernel holds.2.2⟩)
  rw [List.foldl_append] at alive tied
  exact ⟨by omega, ended_or_proceeds alive tied⟩

theorem client_ends_interrupted :
    let process := (start {} none fun _ => 0).after transparent (started ++ [ProcessEvent.signal])
    let later := process.after transparent (List.replicate 7 (.main {}))
    process.client.running = false ∧ later.main = .joinReceiver ∧ later.receiver = .receiving ∧
      (later.main = .exited ∨ later.Attends ∨ ∃ event, later.Proceeds event) :=
  ⟨by decide +kernel, by decide +kernel, by decide +kernel,
    (client_ends transparent {} none (fun _ => 0) (started ++ [ProcessEvent.signal])
      (List.replicate 7 (.main {})) (by decide +kernel) (by decide +kernel)).2⟩

end ModbusChat.Client
