import ModbusChat.Client.Conduct
import ModbusChat.Client.Confinement
import ModbusChat.Client.Process

set_option autoImplicit false

namespace ModbusChat.Client

open BigEndian Effects PeerKeyStore Wire

def ProcessEffect.Report : ProcessEffect → Prop
  | .client _ _ effect => effect.Ordinary ∧ effect.packet? = none
  | .inputPrompt _ | .connected .. | .failed _ => True
  | _ => False

namespace Process

section Runs

variable (process : Process)

theorem ofClient_run {α : Type} (action : ClientM α) :
    (ofClient action).run process =
      ⟨{ process with client := (action.run process.client).state },
        (action.run process.client).output.map (.client process.target process.printing),
        (action.run process.client).result⟩ := rfl

-- Whoever is still online has not had the number of the socket closed or shut down.
def Spares (numbers : List Descriptor) (online : Bool) : Prop :=
  online → process.client.online ∧ ∀ fd ∈ numbers, process.descriptors.lookup fd ≠ some .socket

theorem cutOff_eq (file : Option OpenFile) :
    ∃ online, (online = true → process.client.online = true ∧ file ≠ some .socket) ∧
      process.cutOff file = { process with client := { process.client with online } } := by
  unfold cutOff
  split
  · exact ⟨false, by simp, rfl⟩
  · exact ⟨process.client.online, by simp_all, rfl⟩

theorem openFile_run (fd : Descriptor) (file : OpenFile) :
    (openFile fd file).run process =
      ⟨{ process with descriptors := process.descriptors.insert fd file }, [.opened fd file],
        .ok ()⟩ := rfl

theorem closeFile_run (file : OpenFile) (fd : Descriptor) :
    ∃ online, process.Spares [fd] online ∧ (closeFile file fd).run process =
      ⟨{ process with
          client := { process.client with online }
          descriptors := process.descriptors.erase fd },
        [.closed file fd (process.descriptors.lookup fd)], .ok ()⟩ := by
  let closed : Process := { process with descriptors := process.descriptors.erase fd }
  obtain ⟨online, spares, cut⟩ := cutOff_eq closed (process.descriptors.lookup fd)
  have run : (closeFile file fd).run process =
      ⟨closed.cutOff (process.descriptors.lookup fd),
        [.closed file fd (process.descriptors.lookup fd)], .ok ()⟩ := rfl
  exact ⟨online, by simpa [Spares] using spares, by rw [run, cut]⟩

theorem closeLogger_run (logFd : Option Descriptor) :
    ∃ online, process.Spares logFd.toList online ∧ (closeLogger logFd).run process =
      ⟨{ process with
          client := { process.client with online }
          descriptors := logFd.elim process.descriptors process.descriptors.erase },
        logFd.elim [] fun fd => [.closed .log fd (process.descriptors.lookup fd)], .ok ()⟩ := by
  cases logFd with
  | none => exact ⟨process.client.online, by simp [Spares], rfl⟩
  | some fd => exact closeFile_run process .log fd

def shutdownEffects (unblockStdin : Bool) : List ProcessEffect :=
  (if 0 ≤ process.socketFd then [.shutdown (process.descriptors.lookup process.socketFd)]
    else []) ++
    if unblockStdin then
      [.closed .standardInput STDIN_FILENO (process.descriptors.lookup STDIN_FILENO)] else []

-- The numbers that `request_shutdown` gives to these calls.
def shutNumbers (unblockStdin : Bool) : List Descriptor :=
  (if 0 ≤ process.socketFd then [process.socketFd] else []) ++
    if unblockStdin then [STDIN_FILENO] else []

theorem shutdownSocket_run (fd : Descriptor) :
    ∃ online, process.Spares (if 0 ≤ fd then [fd] else []) online ∧
      (shutdownSocket fd).run process = ⟨{ process with client := { process.client with online } },
        if 0 ≤ fd then [.shutdown (process.descriptors.lookup fd)] else [], .ok ()⟩ := by
  unfold shutdownSocket
  split
  · obtain ⟨online, spares, cut⟩ := cutOff_eq process (process.descriptors.lookup fd)
    exact ⟨online, by simpa [Spares] using spares, by rw [← cut]; rfl⟩
  · exact ⟨process.client.online, by simp [Spares], rfl⟩

theorem requestShutdown_run (unblockStdin : Bool) :
    ∃ online, process.Spares (process.shutNumbers unblockStdin) online ∧
      (requestShutdown unblockStdin).run process =
        ⟨{ process with
            client := { process.client with running := false, online }
            descriptors :=
              if unblockStdin then process.descriptors.erase STDIN_FILENO
                else process.descriptors },
          process.shutdownEffects unblockStdin, .ok ()⟩ := by
  let stopped : Process := { process with client := { process.client with running := false } }
  obtain ⟨online, spares, shut⟩ := shutdownSocket_run stopped process.socketFd
  have first : (requestShutdown unblockStdin).run process =
      ((shutdownSocket process.socketFd).run stopped).andThen fun _ =>
        if unblockStdin then closeFile .standardInput STDIN_FILENO else return := rfl
  rw [first, shut, Outcome.andThen_ok, shutdownEffects, shutNumbers]
  cases unblockStdin with
  | false => exact ⟨online, by simpa [Spares, stopped] using spares, by simp [stopped]⟩
  | true =>
    obtain ⟨later, spared, closed⟩ := closeFile_run
      { stopped with client := { stopped.client with online } } .standardInput STDIN_FILENO
    refine ⟨later, fun still => ?_, by rw [if_pos rfl, closed]; rfl⟩
    obtain ⟨connected, untouched⟩ := spared still
    obtain ⟨before, unshut⟩ := spares connected
    exact ⟨before, fun fd member => (List.mem_append.mp member).elim (unshut fd) (untouched fd)⟩

end Runs

-- The step has to wait, or there is nobody left to make it.
def Blocked (process : Process) : ProcessEvent → Prop
  | .main _ =>
      process.main = .exited ∨ process.main = .terminated ∨
        process.main = .joinReceiver ∧ process.receiver ≠ .absent ∧ process.receiver ≠ .finished ∨
        process.urandom .main ≠ none
  | .receiver _ =>
      process.main = .terminated ∨ process.receiver = .absent ∨ process.receiver = .finished ∨
        process.urandom .receiver ≠ none
  | .urandom thread opened =>
      process.main = .terminated ∨ process.urandom thread = none ∧
        (opened = none ∨ ¬ process.draws thread)
  | .signal => process.main = .terminated ∨ process.installed = false
  | .hangUp => process.main = .terminated

instance (process : Process) (event : ProcessEvent) : Decidable (process.Blocked event) :=
  match event with
  | .main _ => inferInstanceAs (Decidable (_ ∨ _ ∨ _ ∧ _ ∧ _ ∨ _))
  | .receiver _ => inferInstanceAs (Decidable (_ ∨ _ ∨ _ ∨ _))
  | .urandom _ _ => inferInstanceAs (Decidable (_ ∨ _ ∧ (_ ∨ _)))
  | .signal => inferInstanceAs (Decidable (_ ∨ _))
  | .hangUp => inferInstanceAs (Decidable (process.main = .terminated))

structure Handled (process : Process) (client : ClientViewModel) (effects : List ProcessEffect) :
    Prop where
  announced : client.exitAnnounced = process.client.exitAnnounced
  stays : process.client.running = false → client.running = false
  sized : KeySizes process.client.keyStore → KeySizes client.keyStore
  identity : client.identity = process.client.identity
  online : client.online = process.client.online
  effects : ∀ effect ∈ effects, effect = .receive process.target ∨
    ∃ said : ClientEffect, said.Ordinary ∧ effect = .client process.target process.printing said

inductive Moved (cipher : Monocypher) (process : Process) :
    ProcessEvent → Process → List ProcessEffect → Prop
  | rests {event : ProcessEvent} (blocked : process.Blocked event) :
      Moved cipher process event process []
  | runsUnlogged {replies : Replies} {effects : List ProcessEffect}
      (phase : process.main = .initLogger)
      (reports : ∀ effect ∈ effects, effect.Report) :
      Moved cipher process (.main replies) { process with main := .loadOrCreateIdentity } effects
  | opensLog {replies : Replies} {fd : Descriptor} {effects : List ProcessEffect}
      (phase : process.main = .initLogger) (given : replies.log = some fd)
      (reports : ∀ effect ∈ effects, effect = .opened fd .log ∨ effect.Report) :
      Moved cipher process (.main replies)
        { process with
          logFd := some fd
          descriptors := process.descriptors.insert fd .log
          main := .loadOrCreateIdentity } effects
  | identifies {replies : Replies} {effects : List ProcessEffect}
      (phase : process.main = .loadOrCreateIdentity) (reports : ∀ effect ∈ effects, effect.Report) :
      Moved cipher process (.main replies)
        { process with
          client :=
            ((startIdentity cipher process.keystore process.config.keystorePassword).run
              process.client).state
          main := .connectToServer } effects
  | connects {replies : Replies} {fd : Descriptor} {effects : List ProcessEffect}
      (phase : process.main = .connectToServer) (given : replies.connecting.socket = some fd)
      (reports : ∀ effect ∈ effects, effect = .opened fd .socket ∨ effect.Report) :
      Moved cipher process (.main replies)
        { process with
          sessionFd := fd
          socketFd := fd
          descriptors := process.descriptors.insert fd .socket
          main := .receiveAssignedId } effects
  | getsNoSocket {replies : Replies} {failure : Failure} {effects : List ProcessEffect}
      (phase : process.main = .connectToServer) (reports : ∀ effect ∈ effects, effect.Report) :
      Moved cipher process (.main replies)
        { process with main := .shutdown, thrown := some failure } effects
  | isRefused {replies : Replies} {fd : Descriptor} {failure : Failure}
      {effects : List ProcessEffect}
      (phase : process.main = .connectToServer) (given : replies.connecting.socket = some fd)
      (reports : ∀ effect ∈ effects, effect = .opened fd .socket ∨
        effect = .closed .socket fd (some .socket) ∨ effect.Report) :
      Moved cipher process (.main replies)
        { process with
          client := { process.client with online := false }
          descriptors := (process.descriptors.insert fd .socket).erase fd
          main := .shutdown
          thrown := some failure } effects
  | starts {replies : Replies} {client : ClientViewModel} {effects : List ProcessEffect}
      (phase : process.main = .receiveAssignedId) (handled : process.Handled client effects) :
      Moved cipher process (.main replies)
        { process with client, receiver := .looping, main := .inputLoop } effects
  | throws {replies : Replies} {client : ClientViewModel} {failure : Failure}
      {effects : List ProcessEffect}
      (phase : process.main = .receiveAssignedId ∨ process.main = .readLine)
      (handled : process.Handled client effects) :
      Moved cipher process (.main replies)
        { process with client, main := .shutdown, thrown := some failure } effects
  | prompts {replies : Replies} (phase : process.main = .inputLoop)
      (running : process.client.running) :
      Moved cipher process (.main replies)
        { process with main := .readLine } [.inputPrompt process.printing]
  | leavesLoop {replies : Replies}
      (phase : process.main = .inputLoop ∧ process.client.running = false ∨
        process.main = .readLine) :
      Moved cipher process (.main replies) { process with main := .announceExit } []
  | skipsLine {replies : Replies} (phase : process.main = .readLine) :
      Moved cipher process (.main replies) { process with main := .inputLoop } []
  | takesLine {replies : Replies} {client : ClientViewModel} {effects : List ProcessEffect}
      (phase : process.main = .readLine) (handled : process.Handled client effects) :
      Moved cipher process (.main replies) { process with client, main := .inputLoop } effects
  | saysFarewell {replies : Replies} (phase : process.main = .announceExit) :
      Moved cipher process (.main replies)
        { process with
          client := { process.client with exitAnnounced := true }
          main := .requestShutdown }
        (if process.client.exitAnnounced then [] else [.exiting process.printing])
  | shutsDown {replies : Replies} {online : Bool} {next : MainPhase}
      (phase : process.main = .requestShutdown ∧ next = .forgetViewModel ∨
        process.main = .shutdown ∧ next = .joinReceiver)
      (spares : process.Spares (process.shutNumbers false) online) :
      Moved cipher process (.main replies)
        { process with
          client := { process.client with running := false, online }
          main := next } (process.shutdownEffects false)
  | forgets {replies : Replies} (phase : process.main = .forgetViewModel) :
      Moved cipher process (.main replies)
        { process with installed := false, main := .stopOutput } []
  | stopsOutput {replies : Replies} (phase : process.main = .stopOutput) :
      Moved cipher process (.main replies) { process with printing := false, main := .shutdown } []
  | joins {replies : Replies} (phase : process.main = .joinReceiver)
      (done : process.receiver = .absent ∨ process.receiver = .finished) :
      Moved cipher process (.main replies) { process with main := .saveKeystore } []
  | savesNothing {replies : Replies} {random : Nat → UInt8} {effects : List ProcessEffect}
      (phase : process.main = .saveKeystore)
      (reason : process.client.keyStore.hasIdentity = false ∨
        (∃ failure, process.client.keyStore.serialize = .error failure) ∨ replies.keystore = none)
      (reports : ∀ effect ∈ effects, effect.Report) :
      Moved cipher process (.main replies)
        { process with client := { process.client with random }, main := .closeSocket } effects
  | opensKeystore {replies : Replies} {fd : Descriptor} {random : Nat → UInt8}
      {plain salt nonce : Bytes}
      (phase : process.main = .saveKeystore) (given : replies.keystore = some fd)
      (identity : process.client.keyStore.hasIdentity)
      (serialized : process.client.keyStore.serialize = .ok plain)
      (saltSize : salt.length = kSaltSize) (nonceSize : nonce.length = kNonceSize) :
      Moved cipher process (.main replies)
        { process with
          client := { process.client with random }
          keystore := some []
          descriptors := process.descriptors.insert fd .keystore
          main := .writeKeystore fd
            (encryptKeystore cipher salt nonce process.config.keystorePassword plain) }
        [.opened fd .keystore]
  | writesKeystore {replies : Replies} {fd : Descriptor} {sealed : Bytes} {online : Bool}
      {effects : List ProcessEffect} (phase : process.main = .writeKeystore fd sealed)
      (reports : ∀ effect ∈ effects,
        effect = .closed .keystore fd (process.descriptors.lookup fd) ∨ effect.Report)
      (spares : process.Spares [fd] online) :
      Moved cipher process (.main replies)
        { process with
          client := { process.client with online }
          keystore :=
            if process.descriptors.lookup fd = some .keystore then
              some (replies.kept.elim sealed sealed.take)
            else process.keystore
          descriptors := process.descriptors.erase fd
          main := .closeSocket } effects
  | closesSocket {replies : Replies} {online : Bool} (phase : process.main = .closeSocket)
      (connected : 0 ≤ process.sessionFd) (spares : process.Spares [process.sessionFd] online) :
      Moved cipher process (.main replies)
        { process with
          client := { process.client with online }
          descriptors := process.descriptors.erase process.sessionFd
          main := .clearSocket }
        [.closed .socket process.sessionFd process.target]
  | hasNoSocket {replies : Replies} (phase : process.main = .closeSocket)
      (unconnected : ¬ 0 ≤ process.sessionFd) :
      Moved cipher process (.main replies) { process with main := .closeLogger } []
  | clearsSocket {replies : Replies} (phase : process.main = .clearSocket) :
      Moved cipher process (.main replies)
        { process with sessionFd := -1, socketFd := -1, main := .closeLogger } []
  | closesLogger {replies : Replies} {online : Bool} {next : MainPhase}
      (phase : process.main = .closeLogger)
      (further : next = if process.thrown.isSome then .handleFailure else .exited)
      (spares : process.Spares process.logFd.toList online) :
      Moved cipher process (.main replies)
        { process with
          client := { process.client with online }
          descriptors := process.logFd.elim process.descriptors process.descriptors.erase
          main := next }
        (process.logFd.elim [] fun fd => [.closed .log fd (process.descriptors.lookup fd)])
  | handlesFailure {replies : Replies} {effects : List ProcessEffect}
      (phase : process.main = .handleFailure)
      (reports : ∀ effect ∈ effects, effect.Report) :
      Moved cipher process (.main replies)
        { process with installed := false, printing := false, main := .exited } effects
  | checksRunning {incoming : Option Frame} (phase : process.receiver = .looping) :
      Moved cipher process (.receiver incoming)
        { process with receiver := if process.client.running then .receiving else .finished } []
  | losesServer (phase : process.receiver = .receiving) :
      Moved cipher process (.receiver none)
        { process with receiver := .claiming } [.receive process.target]
  | takesFrame {frame : Frame} {client : ClientViewModel} {effects : List ProcessEffect}
      (phase : process.receiver = .receiving) (handled : process.Handled client effects) :
      Moved cipher process (.receiver (some frame))
        { process with client, receiver := .looping } effects
  | claimsExit {incoming : Option Frame} (phase : process.receiver = .claiming)
      (first : process.client.exitAnnounced = false) :
      Moved cipher process (.receiver incoming)
        { process with
          client := { process.client with exitAnnounced := true }, receiver := .announcing } []
  | comesLate {incoming : Option Frame} (phase : process.receiver = .claiming)
      (second : process.client.exitAnnounced) :
      Moved cipher process (.receiver incoming) { process with receiver := .withdrawing } []
  | saysServerLost {incoming : Option Frame} (phase : process.receiver = .announcing) :
      Moved cipher process (.receiver incoming) { process with receiver := .withdrawing }
        [.client process.target process.printing (.display .serverDisconnected)]
  | receiverShutsDown {incoming : Option Frame} {online : Bool}
      (phase : process.receiver = .withdrawing)
      (spares : process.Spares (process.shutNumbers true) online) :
      Moved cipher process (.receiver incoming)
        { process with
          client := { process.client with running := false, online }
          descriptors := process.descriptors.erase STDIN_FILENO
          receiver := .finished } (process.shutdownEffects true)
  | opensUrandom {thread : ProcessThread} {fd : Descriptor} (may : process.draws thread)
      (unused : process.urandom thread = none) :
      Moved cipher process (.urandom thread (some fd))
        { process with
          descriptors := process.descriptors.insert fd .urandom
          urandom := Function.update process.urandom thread (some fd) } [.opened fd .urandom]
  | closesUrandom {thread : ProcessThread} {opened : Option Descriptor} {fd : Descriptor}
      {online : Bool}
      (stream : process.urandom thread = some fd) (spares : process.Spares [fd] online) :
      Moved cipher process (.urandom thread opened)
        { process with
          client := { process.client with online }
          descriptors := process.descriptors.erase fd
          urandom := Function.update process.urandom thread none }
        [.closed .urandom fd (process.descriptors.lookup fd)]
  | isInterrupted {online : Bool} (installed : process.installed)
      (spares : process.Spares (process.shutNumbers true) online) :
      Moved cipher process .signal
        { process with
          client := { process.client with running := false, online }
          descriptors := process.descriptors.erase STDIN_FILENO } (process.shutdownEffects true)
  | isCutOff :
      Moved cipher process .hangUp
        { process with client := { process.client with online := false } } []

section Moves

variable {cipher : Monocypher} {process after : Process} {effects : List ProcessEffect}

theorem Moved.of_run {event : ProcessEvent}
    (run : (action cipher event).run process = ⟨after, effects, .ok ()⟩)
    (moved : Moved cipher process event after effects) :
    Moved cipher process event (process.step cipher event) (process.emitted cipher event) := by
  rw [step, emitted, run]
  exact moved

theorem main_returns {replies : Replies} (awake : process.urandom .main = none)
    (alive : process.main ≠ .terminated)
    (run : (mainStep cipher replies).run process = ⟨after, effects, .ok ()⟩) :
    (action cipher (.main replies)).run process = ⟨after, effects, .ok ()⟩ := by
  simp only [action, Action.run_bind, Action.run_get, Outcome.andThen_ok, Outcome.before_nil, alive,
    busy, awake, Option.isSome_none, Bool.false_eq_true, or_false, if_false,
    Action.run_tryCatch, run, Outcome.orElse_ok]

theorem main_throws {replies : Replies} {failure : Failure} (awake : process.urandom .main = none)
    (alive : process.main ≠ .terminated)
    (run : (mainStep cipher replies).run process = ⟨after, effects, .error failure⟩)
    (caught : failure.what?.isSome) :
    (action cipher (.main replies)).run process =
      ⟨{ after with main := .shutdown, thrown := some failure }, effects, .ok ()⟩ := by
  simp only [action, Action.run_bind, Action.run_get, Outcome.andThen_ok, alive, busy, awake,
    Option.isSome_none, Bool.false_eq_true, or_false, if_false, Action.run_tryCatch, run,
    Outcome.orElse_error, unwind, goTo, caught, if_true, Action.run_modify, Outcome.before_mk,
    List.append_nil, List.nil_append]

theorem receiver_returns {incoming : Option Frame} (awake : process.urandom .receiver = none)
    (alive : process.main ≠ .terminated)
    (run : (receiverStep cipher incoming).run process = ⟨after, effects, .ok ()⟩) :
    (action cipher (.receiver incoming)).run process = ⟨after, effects, .ok ()⟩ := by
  simp only [action, Action.run_bind, Action.run_get, Outcome.andThen_ok, Outcome.before_nil, alive,
    busy, awake, Option.isSome_none, Bool.false_eq_true, or_false, if_false,
    Action.run_tryCatch, run, Outcome.orElse_ok]

theorem caught_of_bounded {α : Type} {failure : Failure}
    (bounded : Bounded (.error failure : Except Failure α)) :
    failure.what?.isSome := by
  cases failure with
  | outOfBounds => exact absurd rfl bounded
  | runtimeError what => rfl
  | badVariantAccess => rfl

theorem Handled.of_conducted {α : Type} {outcome : Outcome ClientViewModel ClientEffect Failure α}
    (clientEvent : ClientEvent)
    (conducted : Conducted cipher clientEvent.deeds process.client outcome)
    (connected : clientEvent ≠ .receive none) :
    process.Handled outcome.state
      (outcome.output.map (.client process.target process.printing)) := by
  have mild := conducted.mild fun closes => connected (mem_eventDeeds closes)
  refine ⟨mild.announced, mild.stays, mild.sized, ?_, mild.online, fun effect member => ?_⟩
  · exact (conducted.orderly mem_eventDeeds).identity
  · obtain ⟨said, output, rfl⟩ := List.mem_map.mp member
    exact .inr ⟨said, mild.ordinary said output, rfl⟩

theorem Handled.receive {client : ClientViewModel} (handled : process.Handled client effects) :
    process.Handled client (.receive process.target :: effects) :=
  { handled with
    effects := fun effect member => (List.mem_cons.mp member).elim .inl (handled.effects effect) }

theorem reports_of_prepares {α : Type} {action : ClientM α} {deeds : List Deed}
    (prepares : Prepares cipher deeds action) (unclosed : .close ∉ deeds) (client : ClientViewModel)
    (target : Option OpenFile) (printed : Bool) :
    ∀ effect ∈ (action.run client).output.map (ProcessEffect.client target printed),
      effect.Report := by
  intro effect member
  obtain ⟨said, output, rfl⟩ := List.mem_map.mp member
  have mild := Conducted.mild (prepares.conducts client) unclosed
  exact ⟨mild.ordinary said output,
    List.filterMap_eq_nil_iff.mp (prepares.packets client) said output⟩

theorem reports_of_idle {α : Type} {action : ClientM α} (idle : Idle action)
    (client : ClientViewModel) (target : Option OpenFile) (printed : Bool) :
    ∀ effect ∈ (action.run client).output.map (ProcessEffect.client target printed),
      effect.Report :=
  reports_of_prepares (@Idle.prepares _ transparent [] _ idle) (by simp) client target printed

theorem initLogger_moved {replies : Replies} (awake : process.urandom .main = none)
    (phase : process.main = .initLogger) :
    Moved cipher process (.main replies) (process.step cipher (.main replies))
      (process.emitted cipher (.main replies)) := by
  have alive : process.main ≠ .terminated := by simp [phase]
  cases given : replies.log with
  | none =>
    have idle : Idle (display (.error (ascii "Cannot open log file: " ++ process.logPath))) :=
      idle_report rfl
    refine .of_run (main_returns awake alive ?_)
      (.runsUnlogged phase (reports_of_idle idle process.client process.target process.printing))
    simp only [mainStep, Action.run_bind, Action.run_get, Outcome.andThen_ok, Outcome.before_nil,
      phase, given]
    rfl
  | some fd =>
    have idle : Idle (do
        .emit (.logInfo (ascii "client log started path=" ++ process.logPath))
        display (.notice (ascii "Log: " ++ process.logPath))) :=
      (idle_report rfl).bind fun _ => idle_report rfl
    have reports := reports_of_idle idle process.client
      ((process.descriptors.insert fd .log).lookup process.sessionFd) process.printing
    refine .of_run (main_returns awake alive ?_) (.opensLog phase given fun effect member =>
      (List.mem_cons.mp member).imp_right (reports effect))
    simp only [mainStep, Action.run_bind, Action.run_get, Outcome.andThen_ok, Outcome.before_nil,
      phase, given]
    rfl

theorem identity_moved {replies : Replies} (awake : process.urandom .main = none)
    (phase : process.main = .loadOrCreateIdentity) :
    Moved cipher process (.main replies) (process.step cipher (.main replies))
      (process.emitted cipher (.main replies)) := by
  have returned :=
    @startIdentity_returns cipher process.keystore process.config.keystorePassword process.client
  have reports := reports_of_prepares
    (@startIdentity_prepares cipher process.keystore process.config.keystorePassword) (by simp)
    process.client process.target process.printing
  refine .of_run (main_returns awake (by simp [phase]) ?_) (.identifies phase reports)
  simp only [mainStep, Action.run_bind, Action.run_get, Outcome.andThen_ok, phase, ofClient_run,
    returned, goTo, Action.run_modify, Outcome.before_mk, List.append_nil, List.nil_append]

theorem connect_cases (process : Process) (reply : Connecting) :
    (connect reply).run process = ⟨process, [], .error (.runtimeError "Failed to create socket")⟩ ∨
    ∃ fd, reply.socket = some fd ∧
      ((connect reply).run process =
          ⟨{ process with descriptors := process.descriptors.insert fd .socket },
            [.opened fd .socket], .ok fd⟩ ∨
        ∃ what, (connect reply).run process =
          ⟨{ process with
              client := { process.client with online := false }
              descriptors := (process.descriptors.insert fd .socket).erase fd },
            [.opened fd .socket, .closed .socket fd (some .socket)],
              .error (.runtimeError what)⟩) := by
  unfold connect
  cases given : reply.socket with
  | none => exact .inl rfl
  | some fd =>
    refine .inr ⟨fd, rfl, ?_⟩
    obtain ⟨online, spares, closed⟩ := closeFile_run
      { process with descriptors := process.descriptors.insert fd .socket } .socket fd
    have found : (process.descriptors.insert fd .socket).lookup fd = some .socket :=
      AList.lookup_insert _
    obtain rfl : online = false := by
      by_contra still
      exact (spares (by simpa using still)).2 fd (by simp) found
    simp only [found] at closed
    cases reply.validIp with
    | false =>
      refine .inr ⟨"Invalid server_ip: " ++ textOf process.config.serverIp, ?_⟩
      simp only [Bool.false_eq_true, if_false, Action.run_bind, openFile_run, Outcome.andThen_ok,
        closed, Action.run_get, Action.run_lift, Outcome.before_mk, List.append_nil,
        List.singleton_append]
    | true =>
      cases reply.refused with
      | none => exact .inl rfl
      | some reason =>
        refine .inr ⟨"connect failed: " ++ reason, ?_⟩
        simp only [if_true, Action.run_bind, openFile_run, Outcome.andThen_ok, closed,
          Action.run_lift, Outcome.before_mk, List.append_nil, List.singleton_append]

theorem connect_moved {replies : Replies} (awake : process.urandom .main = none)
    (phase : process.main = .connectToServer) :
    Moved cipher process (.main replies) (process.step cipher (.main replies))
      (process.emitted cipher (.main replies)) := by
  have alive : process.main ≠ .terminated := by simp [phase]
  have begin : (mainStep cipher replies).run process =
      ((connectToServer replies.connecting).run process).andThen fun _ =>
        goTo .receiveAssignedId := by
    simp only [mainStep, Action.run_bind, Action.run_get, Outcome.andThen_ok, Outcome.before_nil,
      phase]
  simp only [connectToServer, Action.run_bind, Action.run_get, Outcome.andThen_ok,
    Outcome.before_nil, ofClient_run, display, Action.run_emit] at begin
  obtain failed | ⟨fd, given, connected | ⟨what, refused⟩⟩ :=
    connect_cases process replies.connecting
  · simp only [failed, Outcome.andThen_error, Outcome.before_mk] at begin
    refine .of_run (main_throws awake alive begin rfl) (.getsNoSocket phase ?_)
    simp [ProcessEffect.Report, ClientEffect.Ordinary, ClientEffect.packet?]
  · simp only [connected, Outcome.andThen_ok, Outcome.before_mk, Action.run_bind, Action.run_modify,
      Action.run_get, Action.run_emit, ofClient_run, goTo] at begin
    refine .of_run (main_returns awake alive begin) (.connects phase given ?_)
    simp [ProcessEffect.Report, ClientEffect.Ordinary, ClientEffect.packet?]
  · simp only [refused, Outcome.andThen_error, Outcome.before_mk] at begin
    refine .of_run (main_throws awake alive begin rfl) (.isRefused phase given ?_)
    simp [ProcessEffect.Report, ClientEffect.Ordinary, ClientEffect.packet?]

theorem assigned_moved {replies : Replies} (awake : process.urandom .main = none)
    (phase : process.main = .receiveAssignedId) :
    Moved cipher process (.main replies) (process.step cipher (.main replies))
      (process.emitted cipher (.main replies)) := by
  have alive : process.main ≠ .terminated := by simp [phase]
  have conducted :
      Conducted cipher _ process.client ((startUp replies.incoming).run process.client) :=
    startUp_conducts replies.incoming process.client
  have handled := (Handled.of_conducted (.start replies.incoming) conducted (by simp)).receive
  cases returned : ((startUp replies.incoming).run process.client).result with
  | ok value =>
    refine .of_run (main_returns awake alive ?_) (.starts phase handled)
    simp only [mainStep, Action.run_bind, Action.run_get, Action.run_emit, Outcome.andThen_ok,
      phase, ofClient_run, returned, receiverGoTo, goTo, Action.run_modify, Outcome.before_mk,
      List.append_nil, List.nil_append, List.singleton_append]
  | error failure =>
    have caught := caught_of_bounded (returned ▸ conducted.bounded)
    have run : (mainStep cipher replies).run process =
        ⟨{ process with client := ((startUp replies.incoming).run process.client).state },
          .receive process.target :: ((startUp replies.incoming).run process.client).output.map
            (.client process.target process.printing), .error failure⟩ := by
      simp only [mainStep, Action.run_bind, Action.run_get, Action.run_emit, Outcome.andThen_ok,
        phase, ofClient_run, returned, Outcome.andThen_error, Outcome.before_mk, List.nil_append,
        List.singleton_append]
    exact .of_run (main_throws awake alive run caught) (.throws (.inl phase) handled)

theorem inputLoop_moved {replies : Replies} (awake : process.urandom .main = none)
    (phase : process.main = .inputLoop) :
    Moved cipher process (.main replies) (process.step cipher (.main replies))
      (process.emitted cipher (.main replies)) := by
  have alive : process.main ≠ .terminated := by simp [phase]
  cases running : process.client.running with
  | true =>
    refine .of_run (main_returns awake alive ?_) (.prompts phase running)
    simp only [mainStep, Action.run_bind, Action.run_get, Outcome.andThen_ok, Outcome.before_nil,
      phase, running, if_true]
    rfl
  | false =>
    refine .of_run (main_returns awake alive ?_) (.leavesLoop (.inl ⟨phase, running⟩))
    simp only [mainStep, Action.run_bind, Action.run_get, Outcome.andThen_ok, Outcome.before_nil,
      phase, running, Bool.false_eq_true, if_false]
    rfl

theorem readLine_moved {replies : Replies} (awake : process.urandom .main = none)
    (phase : process.main = .readLine) :
    Moved cipher process (.main replies) (process.step cipher (.main replies))
      (process.emitted cipher (.main replies)) := by
  have alive : process.main ≠ .terminated := by simp [phase]
  match given : replies.line with
  | none =>
    refine .of_run (main_returns awake alive ?_) (.leavesLoop (.inr phase))
    simp only [mainStep, Action.run_bind, Action.run_get, Outcome.andThen_ok, Outcome.before_nil,
      phase, given]
    rfl
  | some [] =>
    refine .of_run (main_returns awake alive ?_) (.skipsLine phase)
    simp only [mainStep, Action.run_bind, Action.run_get, Outcome.andThen_ok, Outcome.before_nil,
      phase, given]
    rfl
  | some (byte :: rest) =>
    let handling : ClientM Unit := do
      handleInputCommand cipher (← Action.lift (parseInputLine (byte :: rest) (← Action.get).myId))
    obtain ⟨command, conducted⟩ : ∃ command : InputCommand,
        Conducted cipher command.deeds process.client (handling.run process.client) :=
      handleLine_conducted (byte :: rest) process.client
    have handled := Handled.of_conducted (.typed command) conducted (by simp)
    have step : (mainStep cipher replies).run process =
        ((ofClient handling).run process).andThen fun _ => goTo .inputLoop := by
      simp only [mainStep, Action.run_bind, Action.run_get, Outcome.andThen_ok, Outcome.before_nil,
        phase, given]
      rfl
    rw [ofClient_run] at step
    cases returned : (handling.run process.client).result with
    | ok value =>
      refine .of_run (main_returns awake alive ?_) (.takesLine phase handled)
      simp only [step, returned, Outcome.andThen_ok, goTo, Action.run_modify, Outcome.before_mk,
        List.append_nil]
    | error failure =>
      have caught := caught_of_bounded (returned ▸ conducted.bounded)
      rw [returned, Outcome.andThen_error] at step
      exact .of_run (main_throws awake alive step caught) (.throws (.inr phase) handled)

theorem announce_moved {replies : Replies} (awake : process.urandom .main = none)
    (phase : process.main = .announceExit) :
    Moved cipher process (.main replies) (process.step cipher (.main replies))
      (process.emitted cipher (.main replies)) := by
  refine .of_run (main_returns awake (by simp [phase]) ?_) (.saysFarewell phase)
  cases announced : process.client.exitAnnounced with
  | true =>
    simp only [mainStep, Action.run_bind, Action.run_get, Outcome.andThen_ok, Outcome.before_nil,
      phase, announceExit, claimExit, announced, if_true, Action.run_pure, Bool.false_eq_true,
      if_false, goTo, Action.run_modify]
    simp [← announced]
  | false =>
    simp only [mainStep, Action.run_bind, Action.run_get, Outcome.andThen_ok, Outcome.before_nil,
      phase, announceExit, claimExit, announced, if_true, Action.run_pure, Bool.false_eq_true,
      if_false, goTo, Action.run_modify]
    rfl

theorem shutdown_moved {replies : Replies} {next : MainPhase} (awake : process.urandom .main = none)
    (phase : process.main = .requestShutdown ∧ next = .forgetViewModel ∨
      process.main = .shutdown ∧ next = .joinReceiver) :
    Moved cipher process (.main replies) (process.step cipher (.main replies))
      (process.emitted cipher (.main replies)) := by
  obtain ⟨online, spares, shut⟩ := requestShutdown_run process false
  refine .of_run (main_returns awake ?_ ?_) (.shutsDown phase spares)
  · rcases phase with ⟨phase, -⟩ | ⟨phase, -⟩ <;> simp [phase]
  · rcases phase with ⟨phase, rfl⟩ | ⟨phase, rfl⟩ <;>
      simp only [mainStep, Action.run_bind, Action.run_get, Outcome.andThen_ok, Outcome.before_mk,
        phase, shut, goTo, Action.run_modify, Bool.false_eq_true, if_false, List.append_nil,
        List.nil_append]

theorem serialize_bounded (store : PeerKeyStore) : Bounded store.serialize :=
  .ite (fun _ => bounded_throw _) fun _ => .ite (fun _ => bounded_throw _) fun _ => bounded_ok _

theorem savingFailed_run {failure : Failure} (caught : failure.what?.isSome) (process : Process) :
    ∃ effects, (∀ effect ∈ effects, effect.Report) ∧
      (ofClient do
        catchClause (reportError "Failed to save keystore") failure
        return none : ProcessM (Option (Descriptor × Bytes))).run process =
          ⟨process, effects, .ok none⟩ := by
  obtain ⟨what, named⟩ := Option.isSome_iff_exists.mp caught
  refine ⟨_, reports_of_idle (idle_reportError "Failed to save keystore" (ascii what))
    process.client process.target process.printing, ?_⟩
  simp only [catchClause, named]
  rfl

theorem saveKeystore_cases (cipher : Monocypher) (process : Process) (opened : Option Descriptor) :
    (∃ random effects, (process.client.keyStore.hasIdentity = false ∨
        (∃ failure, process.client.keyStore.serialize = .error failure) ∨ opened = none) ∧
      (∀ effect ∈ effects, effect.Report) ∧ (saveKeystore cipher opened).run process =
        ⟨{ process with client := { process.client with random } }, effects, .ok none⟩) ∨
    ∃ fd random plain salt nonce, opened = some fd ∧ process.client.keyStore.hasIdentity ∧
      process.client.keyStore.serialize = .ok plain ∧ salt.length = kSaltSize ∧
      nonce.length = kNonceSize ∧
      (saveKeystore cipher opened).run process =
        ⟨{ process with
            client := { process.client with random }
            keystore := some []
            descriptors := process.descriptors.insert fd .keystore }, [.opened fd .keystore],
          .ok
            (some
              (fd, encryptKeystore cipher salt nonce process.config.keystorePassword plain))⟩ := by
  unfold saveKeystore
  rw [Action.run_bind, Action.run_get, Outcome.andThen_ok, Outcome.before_nil]
  cases identity : process.client.keyStore.hasIdentity with
  | false => exact .inl ⟨process.client.random, [], .inl rfl, by simp, rfl⟩
  | true =>
    rw [if_pos rfl, Action.run_tryCatch, Action.run_bind, Action.run_lift]
    cases serialized : process.client.keyStore.serialize with
    | error failure =>
      have caught := caught_of_bounded (serialized ▸ serialize_bounded process.client.keyStore)
      obtain ⟨effects, reports, run⟩ := savingFailed_run caught process
      refine .inl ⟨process.client.random, effects, .inr (.inl ⟨failure, rfl⟩), reports, ?_⟩
      rw [Outcome.andThen_error, Outcome.orElse_error, run]
      rfl
    | ok plain =>
      let salt := (List.range kSaltSize).map process.client.random
      let nonce := (List.range kNonceSize).map fun i => process.client.random (i + kSaltSize)
      let random := fun i => process.client.random (i + kNonceSize + kSaltSize)
      cases opened with
      | none =>
        obtain ⟨effects, reports, run⟩ := @savingFailed_run
          (.runtimeError
            ("failed to open keystore for writing: " ++ textOf process.client.keystorePath)) rfl
          { process with client := { process.client with random } }
        refine .inl ⟨random, effects, .inr (.inr rfl), reports, ?_⟩
        rw [← run]
        rfl
      | some fd =>
        exact .inr ⟨fd, random, plain, salt, nonce, rfl, rfl,
          rfl, by simp [salt], by simp [nonce], rfl⟩

theorem saveKeystore_moved {replies : Replies} (awake : process.urandom .main = none)
    (phase : process.main = .saveKeystore) :
    Moved cipher process (.main replies) (process.step cipher (.main replies))
      (process.emitted cipher (.main replies)) := by
  have alive : process.main ≠ .terminated := by simp [phase]
  obtain ⟨random, effects, reason, reports, run⟩ |
    ⟨fd, random, plain, salt, nonce, given, identity, serialized, saltSize, nonceSize, run⟩ :=
      saveKeystore_cases cipher process replies.keystore
  · have begin : (mainStep cipher replies).run process =
        ⟨{ process with client := { process.client with random }, main := .closeSocket }, effects,
          .ok ()⟩ := by
      simp only [mainStep, Action.run_bind, Action.run_get, Outcome.andThen_ok, phase, run,
        goTo, Action.run_modify, Outcome.before_mk, List.append_nil, List.nil_append]
    exact .of_run (main_returns awake alive begin) (.savesNothing phase reason reports)
  · have begin : (mainStep cipher replies).run process =
        ⟨{ process with
            client := { process.client with random }
            keystore := some []
            descriptors := process.descriptors.insert fd .keystore
            main := .writeKeystore fd
              (encryptKeystore cipher salt nonce process.config.keystorePassword plain) },
          [.opened fd .keystore], .ok ()⟩ := by
      simp only [mainStep, Action.run_bind, Action.run_get, Outcome.andThen_ok, phase, run,
        goTo, Action.run_modify, Outcome.before_mk, List.append_nil, List.nil_append]
    exact .of_run (main_returns awake alive begin)
      (.opensKeystore phase given identity serialized saltSize nonceSize)

theorem writeKeystore_moved {replies : Replies} {fd : Descriptor} {sealed : Bytes}
    (awake : process.urandom .main = none) (phase : process.main = .writeKeystore fd sealed) :
    Moved cipher process (.main replies) (process.step cipher (.main replies))
      (process.emitted cipher (.main replies)) := by
  have alive : process.main ≠ .terminated := by simp [phase]
  let written : Process :=
    { process with
      keystore :=
        if process.descriptors.lookup fd = some .keystore then
          some (replies.kept.elim sealed sealed.take)
        else process.keystore }
  obtain ⟨online, spares, closed⟩ := closeFile_run written .keystore fd
  have begin : (mainStep cipher replies).run process =
      (((closeFile .keystore fd).run written).andThen fun _ =>
        if replies.noticed then
          ofClient (reportError "Failed to save keystore"
            (ascii "failed to write keystore: " ++ process.client.keystorePath))
        else ofClient
          (.emit (.logInfo (ascii "Keystore saved path=" ++ process.client.keystorePath)))).andThen
          fun _ => goTo .closeSocket := by
    simp only [mainStep, Action.run_bind, Action.run_get, Outcome.andThen_ok, Outcome.before_nil,
      phase]
    rfl
  have told (later : Process) : ∃ effects, (∀ effect ∈ effects, effect.Report) ∧
      (if replies.noticed then
        ofClient (reportError "Failed to save keystore"
          (ascii "failed to write keystore: " ++ process.client.keystorePath))
      else ofClient
        (.emit (.logInfo (ascii "Keystore saved path=" ++ process.client.keystorePath))) :
        ProcessM Unit).run later = ⟨later, effects, .ok ()⟩ := by
    cases replies.noticed with
    | true =>
      exact ⟨_, reports_of_idle (idle_reportError _ _) later.client later.target later.printing,
        rfl⟩
    | false =>
      exact ⟨_, reports_of_idle (idle_report rfl) later.client later.target later.printing, rfl⟩
  obtain ⟨effects, reports, run⟩ := told
    { written with
      client := { written.client with online }, descriptors := written.descriptors.erase fd }
  simp only [closed, Outcome.andThen_ok, run, Outcome.before_mk, goTo, Action.run_modify,
    List.append_nil, List.singleton_append] at begin
  refine .of_run (main_returns awake alive begin)
    (.writesKeystore phase (fun effect member => ?_) spares)
  exact (List.mem_cons.mp member).imp_right (reports effect)

theorem quiet_moved {replies : Replies} (awake : process.urandom .main = none)
    (phase : process.main = .forgetViewModel ∨ process.main = .stopOutput ∨
      process.main = .joinReceiver ∨
      process.main = .clearSocket ∨ process.main = .exited) :
    Moved cipher process (.main replies) (process.step cipher (.main replies))
      (process.emitted cipher (.main replies)) := by
  rcases phase with phase | phase | phase | phase | phase
  · refine .of_run (main_returns awake (by simp [phase]) ?_) (.forgets phase)
    simp only [mainStep, Action.run_bind, Action.run_get, Outcome.andThen_ok, Outcome.before_nil,
      phase]
    rfl
  · refine .of_run (main_returns awake (by simp [phase]) ?_) (.stopsOutput phase)
    simp only [mainStep, Action.run_bind, Action.run_get, Outcome.andThen_ok, Outcome.before_nil,
      phase]
    rfl
  · by_cases done : process.receiver = .absent ∨ process.receiver = .finished
    · refine .of_run (main_returns awake (by simp [phase]) ?_) (.joins phase done)
      simp only [mainStep, Action.run_bind, Action.run_get, Outcome.andThen_ok, Outcome.before_nil,
        phase, if_pos done]
      rfl
    · refine .of_run (main_returns awake (by simp [phase]) ?_)
        (.rests (.inr (.inr (.inl ⟨phase, not_or.mp done⟩))))
      simp only [mainStep, Action.run_bind, Action.run_get, Outcome.andThen_ok, Outcome.before_nil,
        phase, if_neg done, Action.run_pure]
  · refine .of_run (main_returns awake (by simp [phase]) ?_) (.clearsSocket phase)
    simp only [mainStep, Action.run_bind, Action.run_get, Outcome.andThen_ok, Outcome.before_nil,
      phase]
    rfl
  · refine .of_run (main_returns awake (by simp [phase]) ?_) (.rests (.inl phase))
    simp only [mainStep, Action.run_bind, Action.run_get, Outcome.andThen_ok, Outcome.before_nil,
      phase, Action.run_pure]

theorem closeSocket_moved {replies : Replies} (awake : process.urandom .main = none)
    (phase : process.main = .closeSocket) :
    Moved cipher process (.main replies) (process.step cipher (.main replies))
      (process.emitted cipher (.main replies)) := by
  have alive : process.main ≠ .terminated := by simp [phase]
  by_cases connected : 0 ≤ process.sessionFd
  · obtain ⟨online, spares, closed⟩ := closeFile_run process .socket process.sessionFd
    refine .of_run (main_returns awake alive ?_) (.closesSocket phase connected spares)
    simp only [mainStep, Action.run_bind, Action.run_get, Outcome.andThen_ok, Outcome.before_nil,
      phase, if_pos connected, closed]
    rfl
  · refine .of_run (main_returns awake alive ?_) (.hasNoSocket phase connected)
    simp only [mainStep, Action.run_bind, Action.run_get, Outcome.andThen_ok, Outcome.before_nil,
      phase, if_neg connected]
    rfl

theorem closeLogger_moved {replies : Replies} (awake : process.urandom .main = none)
    (phase : process.main = .closeLogger) :
    Moved cipher process (.main replies) (process.step cipher (.main replies))
      (process.emitted cipher (.main replies)) := by
  obtain ⟨online, spares, closed⟩ := closeLogger_run process process.logFd
  refine .of_run (main_returns awake (by simp [phase]) ?_) (.closesLogger phase rfl spares)
  simp only [mainStep, Action.run_bind, Action.run_get, Outcome.andThen_ok, phase, closed, goTo,
    Action.run_modify, Outcome.before_mk, List.append_nil, List.nil_append]

theorem handleFailure_moved {replies : Replies} (awake : process.urandom .main = none)
    (phase : process.main = .handleFailure) :
    Moved cipher process (.main replies) (process.step cipher (.main replies))
      (process.emitted cipher (.main replies)) := by
  let shown : List ProcessEffect := (process.thrown.bind Failure.what?).toList.map .failed
  have reports : ∀ effect ∈ shown, effect.Report := by
    intro effect member
    obtain ⟨what, -, rfl⟩ := List.mem_map.mp member
    trivial
  refine .of_run (main_returns awake (by simp [phase]) ?_) (.handlesFailure phase reports)
  simp only [mainStep, Action.run_bind, Action.run_get, Outcome.andThen_ok, phase,
    Action.run_modify, Action.run_emitAll, goTo, Outcome.before_mk, List.append_nil]
  rfl

theorem main_moved (awake : process.urandom .main = none) (alive : process.main ≠ .terminated)
    (replies : Replies) :
    Moved cipher process (.main replies) (process.step cipher (.main replies))
      (process.emitted cipher (.main replies)) := by
  cases phase : process.main with
  | initLogger => exact initLogger_moved awake phase
  | loadOrCreateIdentity => exact identity_moved awake phase
  | connectToServer => exact connect_moved awake phase
  | receiveAssignedId => exact assigned_moved awake phase
  | inputLoop => exact inputLoop_moved awake phase
  | readLine => exact readLine_moved awake phase
  | announceExit => exact announce_moved awake phase
  | requestShutdown => exact shutdown_moved awake (.inl ⟨phase, rfl⟩)
  | forgetViewModel => exact quiet_moved awake (.inl phase)
  | stopOutput => exact quiet_moved awake (.inr (.inl phase))
  | shutdown => exact shutdown_moved awake (.inr ⟨phase, rfl⟩)
  | joinReceiver => exact quiet_moved awake (.inr (.inr (.inl phase)))
  | saveKeystore => exact saveKeystore_moved awake phase
  | writeKeystore fd sealed => exact writeKeystore_moved awake phase
  | closeSocket => exact closeSocket_moved awake phase
  | clearSocket => exact quiet_moved awake (.inr (.inr (.inr (.inl phase))))
  | closeLogger => exact closeLogger_moved awake phase
  | handleFailure => exact handleFailure_moved awake phase
  | exited => exact quiet_moved awake (.inr (.inr (.inr (.inr phase))))
  | terminated => exact absurd phase alive

theorem receiver_moved (awake : process.urandom .receiver = none)
    (alive : process.main ≠ .terminated) (incoming : Option Frame) :
    Moved cipher process (.receiver incoming) (process.step cipher (.receiver incoming))
      (process.emitted cipher (.receiver incoming)) := by
  cases phase : process.receiver with
  | absent =>
    refine .of_run (receiver_returns awake alive ?_) (.rests (.inr (.inl phase)))
    simp only [receiverStep, Action.run_bind, Action.run_get, Outcome.andThen_ok,
      Outcome.before_nil, phase, Action.run_pure]
  | looping =>
    refine .of_run (receiver_returns awake alive ?_) (.checksRunning phase)
    simp only [receiverStep, Action.run_bind, Action.run_get, Outcome.andThen_ok,
      Outcome.before_nil, phase]
    rfl
  | receiving =>
    cases incoming with
    | none =>
      refine .of_run (receiver_returns awake alive ?_) (.losesServer phase)
      simp only [receiverStep, Action.run_bind, Action.run_get, Outcome.andThen_ok,
        Outcome.before_nil, phase]
      rfl
    | some frame =>
      have handled := (Handled.of_conducted (.receive (some frame))
        (@receiveNext_conducts cipher frame process.client) (by simp)).receive
      have returned := @receiveNext_returns cipher frame process.client
      refine .of_run (receiver_returns awake alive ?_) (.takesFrame phase handled)
      simp only [receiverStep, Action.run_bind, Action.run_get, Action.run_emit, Outcome.andThen_ok,
        phase, ofClient_run, returned, receiverGoTo, Action.run_modify, Outcome.before_mk,
        List.append_nil, List.nil_append, List.singleton_append]
  | claiming =>
    cases announced : process.client.exitAnnounced with
    | true =>
      refine .of_run (receiver_returns awake alive ?_) (.comesLate phase announced)
      simp only [receiverStep, Action.run_bind, Action.run_get, Outcome.andThen_ok,
        Outcome.before_nil, phase, claimExit, announced, if_true, Action.run_pure,
        Bool.false_eq_true, if_false]
      rfl
    | false =>
      refine .of_run (receiver_returns awake alive ?_) (.claimsExit phase announced)
      simp only [receiverStep, Action.run_bind, Action.run_get, Outcome.andThen_ok,
        Outcome.before_nil, phase, claimExit, announced, Bool.false_eq_true, if_false]
      rfl
  | announcing =>
    refine .of_run (receiver_returns awake alive ?_) (.saysServerLost phase)
    simp only [receiverStep, Action.run_bind, Action.run_get, Outcome.andThen_ok,
      Outcome.before_nil, phase]
    rfl
  | withdrawing =>
    obtain ⟨online, spares, shut⟩ := requestShutdown_run process true
    refine .of_run (receiver_returns awake alive ?_) (.receiverShutsDown phase spares)
    simp only [receiverStep, Action.run_bind, Action.run_get, Outcome.andThen_ok, phase, shut,
      receiverGoTo, Action.run_modify, Outcome.before_mk, if_true, List.append_nil, List.nil_append]
  | finished =>
    refine .of_run (receiver_returns awake alive ?_) (.rests (.inr (.inr (.inl phase))))
    simp only [receiverStep, Action.run_bind, Action.run_get, Outcome.andThen_ok,
      Outcome.before_nil, phase, Action.run_pure]

theorem urandom_moved (alive : process.main ≠ .terminated) (thread : ProcessThread)
    (opened : Option Descriptor) :
    Moved cipher process (.urandom thread opened) (process.step cipher (.urandom thread opened))
      (process.emitted cipher (.urandom thread opened)) := by
  have begin : (action cipher (.urandom thread opened)).run process =
      (fillRandom thread opened).run process := by
    simp only [action, Action.run_bind, Action.run_get, Outcome.andThen_ok, Outcome.before_nil,
      alive, busy, Bool.false_eq_true, or_false, if_false]
  simp only [fillRandom, Action.run_bind, Action.run_get, Outcome.andThen_ok,
    Outcome.before_nil] at begin
  cases stream : process.urandom thread with
  | some fd =>
    obtain ⟨online, spares, closed⟩ := closeFile_run process .urandom fd
    refine .of_run (begin.trans ?_) (.closesUrandom stream spares)
    simp only [stream, Action.run_bind, closed]
    rfl
  | none =>
    cases opened with
    | none =>
      refine .of_run (begin.trans ?_) (.rests (.inr ⟨stream, .inl rfl⟩))
      simp only [stream, Action.run_pure]
    | some fd =>
      by_cases may : process.draws thread
      · refine .of_run (begin.trans ?_) (.opensUrandom may stream)
        simp only [stream, if_pos may]
        rfl
      · refine .of_run (begin.trans ?_) (.rests (.inr ⟨stream, .inr may⟩))
        simp only [stream, if_neg may, Action.run_pure]

-- A thread in the middle of a step does not begin another.
theorem busy_rests {event : ProcessEvent} (held : process.busy event) :
    process.step cipher event = process ∧ process.emitted cipher event = [] := by
  simp only [step, emitted, action, Action.run_bind, Action.run_get, Outcome.andThen_ok,
    Outcome.before_nil, held, or_true, if_true, Action.run_pure, and_self]

theorem moved (cipher : Monocypher) (process : Process) (event : ProcessEvent) :
    Moved cipher process event (process.step cipher event) (process.emitted cipher event) := by
  by_cases dead : process.main = .terminated
  · have rested : (action cipher event).run process = ⟨process, [], .ok ()⟩ := by
      simp only [action, Action.run_bind, Action.run_get, Outcome.andThen_ok, Outcome.before_nil,
        dead, true_or, if_true, Action.run_pure]
    exact .of_run rested (.rests (by cases event <;> simp [Blocked, dead]))
  cases event with
  | main replies =>
    cases stream : process.urandom .main with
    | none => exact main_moved stream dead replies
    | some fd =>
      obtain ⟨same, silent⟩ := @busy_rests cipher process (.main replies) (by simp [busy, stream])
      rw [same, silent]
      exact .rests (.inr (.inr (.inr (by simp [stream]))))
  | receiver incoming =>
    cases stream : process.urandom .receiver with
    | none => exact receiver_moved stream dead incoming
    | some fd =>
      obtain ⟨same, silent⟩ :=
        @busy_rests cipher process (.receiver incoming) (by simp [busy, stream])
      rw [same, silent]
      exact .rests (.inr (.inr (.inr (by simp [stream]))))
  | urandom thread opened => exact urandom_moved dead thread opened
  | signal =>
    cases installed : process.installed with
    | true =>
      obtain ⟨online, spares, shut⟩ := requestShutdown_run process true
      refine .of_run ?_ (.isInterrupted installed spares)
      simp only [action, Action.run_bind, Action.run_get, Outcome.andThen_ok, Outcome.before_nil,
        dead, busy, Bool.false_eq_true, or_false, if_false, installed, if_true, shut]
    | false =>
      refine .of_run ?_ (.rests (.inr installed))
      simp only [action, Action.run_bind, Action.run_get, Outcome.andThen_ok, Outcome.before_nil,
        dead, busy, or_false, if_false, installed, Bool.false_eq_true, Action.run_pure]
  | hangUp =>
    refine .of_run ?_ .isCutOff
    simp only [action, Action.run_bind, Action.run_get, Outcome.andThen_ok, Outcome.before_nil,
      dead, busy, Bool.false_eq_true, or_false, if_false]
    rfl

end Moves

end Process

end ModbusChat.Client
