import ModbusChat.Client.Identity
import ModbusChat.Client.InputCommandParser
import ModbusChat.Common.Config

set_option autoImplicit false

-- `main`, the receive thread and the signal handler of the client, cut into the steps between which
-- the others can act, next to the descriptors that the kernel keeps for the process. The handling
-- of a line, of a frame and of a signal is one step each, but the stream that `fill_random` opens
-- in the middle of one is there for all to see.

namespace ModbusChat.Client

open BigEndian Common Effects Wire

abbrev Descriptor := Int32

def STDIN_FILENO : Descriptor := 0

def kDefaultClientLogName : Bytes := ascii "client.log"

inductive OpenFile where
  | standardInput
  | log
  | socket
  | keystore
  | urandom
  deriving DecidableEq, Repr

inductive ProcessThread where
  | main
  | receiver
  deriving DecidableEq, Repr

/--
What `main` does next: `run` down to `requestShutdown`, then the end of the scope with the
destructor of the view model, and the catch clause. `terminated` is where `std::terminate` ends the
process.
-/
inductive MainPhase where
  | initLogger
  | loadOrCreateIdentity
  | connectToServer
  | receiveAssignedId
  | inputLoop
  | readLine
  | announceExit
  | requestShutdown
  | forgetViewModel
  | stopOutput
  | shutdown
  | joinReceiver
  | saveKeystore
  | writeKeystore (fd : Descriptor) (sealed : Bytes)
  | closeSocket
  | clearSocket
  | closeLogger
  | handleFailure
  | exited
  | terminated
  deriving DecidableEq, Repr

inductive ReceiverPhase where
  | absent
  | looping
  | receiving
  | claiming
  | announcing
  | withdrawing
  | finished
  deriving DecidableEq, Repr

/--
`sessionFd` is the descriptor that the session holds, `socketFd` the copy for the signal handler.
`urandom` is the stream that a thread has open in `fill_random`. `installed` says that `g_client_vm`
is set, `printing` that the output queue takes commands, and `keystore` is the content of the
keystore file.
-/
structure Process where
  config : ClientConfig
  client : ClientViewModel
  main : MainPhase := .initLogger
  receiver : ReceiverPhase := .absent
  sessionFd : Descriptor := -1
  socketFd : Descriptor := -1
  logFd : Option Descriptor := none
  urandom : ProcessThread → Option Descriptor := fun _ => none
  descriptors : Table Descriptor OpenFile :=
    (∅ : Table Descriptor OpenFile).insert STDIN_FILENO .standardInput
  installed : Bool := true
  printing : Bool := true
  thrown : Option Failure := none
  keystore : Option Bytes

/--
What a step does, with the file that a descriptor stood for at the time; a close also says which
file it is meant for. `printed` is false for what is posted to an output queue that has stopped, and
so dropped.
-/
inductive ProcessEffect where
  | client (target : Option OpenFile) (printed : Bool) (effect : ClientEffect)
  | receive (target : Option OpenFile)
  | inputPrompt (printed : Bool)
  | connected (printed : Bool) (serverIp : Bytes) (port : UInt16)
  | exiting (printed : Bool)
  | opened (fd : Descriptor) (file : OpenFile)
  | shutdown (target : Option OpenFile)
  | closed (file : OpenFile) (fd : Descriptor) (target : Option OpenFile)
  | failed (what : String)
  deriving DecidableEq, Repr

abbrev ProcessM := Action Process ProcessEffect Failure

-- What `socket`, `inet_pton` and `connect` return: a descriptor, success, and the text of an error.
structure Connecting where
  socket : Option Descriptor := none
  validIp : Bool := true
  refused : Option String := none

/--
What the system calls of a step of `main` return, of which it uses those it makes. The keystore file
keeps all bytes or the first `kept` of them, and `noticed` says whether the stream reports the loss.
-/
structure Replies where
  log : Option Descriptor := none
  connecting : Connecting := {}
  incoming : Option Frame := none
  line : Option Bytes := none
  keystore : Option Descriptor := none
  kept : Option Nat := none
  noticed : Bool := false

inductive ProcessEvent where
  | main (replies : Replies)
  | receiver (incoming : Option Frame)
  | urandom (thread : ProcessThread) (opened : Option Descriptor)
  | signal
  | hangUp

def textOf (bytes : Bytes) : String := String.ofList (bytes.map fun byte => Char.ofNat byte.toNat)

def defaultLogName (nickname : Bytes) : Bytes :=
  if nickname = [] then kDefaultClientLogName else nickname ++ ascii ".log"

namespace Process

def start (config : ClientConfig) (keystore : Option Bytes) (random : Nat → UInt8) : Process where
  config
  client := { nickname := config.nickname, configuredKeystore := config.keystorePath, random }
  keystore

def logPath (process : Process) : Bytes :=
  if process.config.logPath ≠ [] then process.config.logPath
  else defaultLogName process.config.nickname

def target (process : Process) : Option OpenFile := process.descriptors.lookup process.sessionFd

-- Writes to the socket fail once it is shut down or its descriptor closed.
def cutOff (process : Process) (file : Option OpenFile) : Process :=
  if file = some .socket then { process with client := { process.client with online := false } }
  else process

def ofClient {α : Type} (action : ClientM α) : ProcessM α :=
  ⟨fun process =>
    let outcome := action.run process.client
    ⟨{ process with client := outcome.state },
      outcome.output.map (.client process.target process.printing), outcome.result⟩⟩

def openFile (fd : Descriptor) (file : OpenFile) : ProcessM Unit := do
  Action.modify fun process => { process with descriptors := process.descriptors.insert fd file }
  .emit (.opened fd file)

def closeFile (file : OpenFile) (fd : Descriptor) : ProcessM Unit := do
  let target := (← Action.get).descriptors.lookup fd
  .emit (.closed file fd target)
  Action.modify fun process =>
    { process with descriptors := process.descriptors.erase fd }.cutOff target

def shutdownSocket (fd : Descriptor) : ProcessM Unit := do
  if 0 ≤ fd then do
    let target := (← Action.get).descriptors.lookup fd
    .emit (.shutdown target)
    Action.modify (·.cutOff target)
  else return

def requestShutdown (unblockStdin : Bool) : ProcessM Unit := do
  Action.modify fun process => { process with client := { process.client with running := false } }
  shutdownSocket (← Action.get).socketFd
  if unblockStdin then closeFile .standardInput STDIN_FILENO else return

-- The `compare_exchange_strong` of `announce_exit`.
def claimExit : ProcessM Bool := do
  if (← Action.get).client.exitAnnounced then return false
  else do
    Action.modify fun process =>
      { process with client := { process.client with exitAnnounced := true } }
    return true

def showFarewell (serverLost : Bool) : ProcessM Unit := do
  if serverLost then ofClient (display .serverDisconnected)
  else .emit (.exiting (← Action.get).printing)

def announceExit (serverLost : Bool) : ProcessM Unit := do
  if ← claimExit then showFarewell serverLost else return

def initLogger (opened : Option Descriptor) : ProcessM Unit := do
  let path := (← Action.get).logPath
  match opened with
  | none => ofClient (display (.error (ascii "Cannot open log file: " ++ path)))
  | some fd => do
      openFile fd .log
      Action.modify fun process => { process with logFd := some fd }
      ofClient do
        .emit (.logInfo (ascii "client log started path=" ++ path))
        display (.notice (ascii "Log: " ++ path))

-- `TcpClientConnector::connect`.
def connect (reply : Connecting) : ProcessM Descriptor := do
  match reply.socket with
  | none => .lift (.error (.runtimeError "Failed to create socket"))
  | some fd => do
      openFile fd .socket
      if reply.validIp then
        match reply.refused with
        | none => return fd
        | some reason => do
            closeFile .socket fd
            .lift (.error (.runtimeError ("connect failed: " ++ reason)))
      else do
        closeFile .socket fd
        .lift
          (.error (.runtimeError ("Invalid server_ip: " ++ textOf (← Action.get).config.serverIp)))

def connectToServer (reply : Connecting) : ProcessM Unit := do
  let config := (← Action.get).config
  let address := config.serverIp ++ (ascii ":" ++ toDecimal config.port.toUInt32)
  ofClient (display (.status (ascii "Connecting to " ++ address) 45))
  let fd ← connect reply
  Action.modify fun process => { process with sessionFd := fd, socketFd := fd }
  ofClient (display (.status (ascii "TCP connected") 60))
  .emit (.connected (← Action.get).printing config.serverIp config.port)
  ofClient (.emit (.logInfo (ascii "connected to " ++ address)))

-- `save_keystore` up to the opened file, which is empty from then on.
def saveKeystore (cipher : Monocypher) (opened : Option Descriptor) :
    ProcessM (Option (Descriptor × Bytes)) := do
  let process ← Action.get
  if process.client.keyStore.hasIdentity then
    .tryCatch
      (do
        let plain ← .lift process.client.keyStore.serialize
        let salt ← ofClient (Client.fillRandom kSaltSize)
        let nonce ← ofClient (Client.fillRandom kNonceSize)
        let sealed := encryptKeystore cipher salt nonce process.config.keystorePassword plain
        match opened with
        | none =>
            .lift (.error (.runtimeError
              ("failed to open keystore for writing: " ++ textOf process.client.keystorePath)))
        | some fd => do
            openFile fd .keystore
            Action.modify fun process => { process with keystore := some [] }
            return some (fd, sealed))
      fun failure => ofClient do
        catchClause (reportError "Failed to save keystore") failure
        return none
  else return none

-- `save_keystore` from the write on. What is written ends up elsewhere once the descriptor is lost.
def writeKeystore (fd : Descriptor) (sealed : Bytes) (kept : Option Nat) (noticed : Bool) :
    ProcessM Unit := do
  let process ← Action.get
  let path := process.client.keystorePath
  Action.modify fun process =>
    { process with
      keystore :=
        if process.descriptors.lookup fd = some .keystore then some (kept.elim sealed sealed.take)
        else process.keystore }
  closeFile .keystore fd
  if noticed then
    ofClient (reportError "Failed to save keystore" (ascii "failed to write keystore: " ++ path))
  else ofClient (.emit (.logInfo (ascii "Keystore saved path=" ++ path)))

-- The destructor of the logger.
def closeLogger (fd : Option Descriptor) : ProcessM Unit :=
  match fd with
  | none => return
  | some fd => closeFile .log fd

-- The steps in which a thread makes keys, nonces or a salt.
def draws (process : Process) : ProcessThread → Bool
  | .main => process.main ∈ [.loadOrCreateIdentity, .receiveAssignedId, .readLine, .saveKeystore]
  | .receiver => process.receiver = .receiving

def setUrandom (thread : ProcessThread) (stream : Option Descriptor) : ProcessM Unit :=
  Action.modify fun process =>
    { process with urandom := Function.update process.urandom thread stream }

-- What is read is in `random`; `std::random_device` takes over from a stream that fails.
def fillRandom (thread : ProcessThread) (opened : Option Descriptor) : ProcessM Unit := do
  let process ← Action.get
  match process.urandom thread, opened with
  | some fd, _ => do
      closeFile .urandom fd
      setUrandom thread none
  | none, some fd =>
      if process.draws thread then do
        openFile fd .urandom
        setUrandom thread (some fd)
      else return
  | none, none => return

def goTo (phase : MainPhase) : ProcessM Unit :=
  Action.modify fun process => { process with main := phase }

def receiverGoTo (phase : ReceiverPhase) : ProcessM Unit :=
  Action.modify fun process => { process with receiver := phase }

section Steps

variable (cipher : Monocypher)

-- A line that `read_line` returns, if any.
def takeLine (line : Option Bytes) : ProcessM Unit :=
  match line with
  | none => goTo .announceExit
  | some [] => goTo .inputLoop
  | some line => do
      ofClient do
        handleInputCommand cipher (← Action.lift (parseInputLine line (← Action.get).myId))
      goTo .inputLoop

-- An exception unwinds to the catch clause of `main`, which only takes a `std::exception`.
def unwind (failure : Failure) : ProcessM Unit := do
  Action.modify fun process => { process with thrown := some failure }
  goTo (if failure.what?.isSome then .shutdown else .terminated)

def mainStep (replies : Replies) : ProcessM Unit := do
  let process ← Action.get
  match process.main with
  | .initLogger => do
      initLogger replies.log
      goTo .loadOrCreateIdentity
  | .loadOrCreateIdentity => do
      ofClient (startIdentity cipher process.keystore process.config.keystorePassword)
      goTo .connectToServer
  | .connectToServer => do
      connectToServer replies.connecting
      goTo .receiveAssignedId
  | .receiveAssignedId => do
      .emit (.receive process.target)
      ofClient (startUp replies.incoming)
      receiverGoTo .looping
      goTo .inputLoop
  | .inputLoop =>
      if process.client.running then do
        .emit (.inputPrompt process.printing)
        goTo .readLine
      else goTo .announceExit
  | .readLine => takeLine cipher replies.line
  | .announceExit => do
      announceExit false
      goTo .requestShutdown
  | .requestShutdown => do
      requestShutdown false
      goTo .forgetViewModel
  | .forgetViewModel => do
      Action.modify fun process => { process with installed := false }
      goTo .stopOutput
  | .stopOutput => do
      Action.modify fun process => { process with printing := false }
      goTo .shutdown
  | .shutdown => do
      requestShutdown false
      goTo .joinReceiver
  | .joinReceiver =>
      if process.receiver = .absent ∨ process.receiver = .finished then goTo .saveKeystore
      else return
  | .saveKeystore => do
      match ← saveKeystore cipher replies.keystore with
      | none => goTo .closeSocket
      | some (fd, sealed) => goTo (.writeKeystore fd sealed)
  | .writeKeystore fd sealed => do
      writeKeystore fd sealed replies.kept replies.noticed
      goTo .closeSocket
  | .closeSocket =>
      if 0 ≤ process.sessionFd then do
        closeFile .socket process.sessionFd
        goTo .clearSocket
      else goTo .closeLogger
  | .clearSocket => do
      Action.modify fun process => { process with sessionFd := -1, socketFd := -1 }
      goTo .closeLogger
  | .closeLogger => do
      closeLogger process.logFd
      goTo (if process.thrown.isSome then .handleFailure else .exited)
  | .handleFailure => do
      -- the output queue went with the scope
      Action.modify fun process => { process with installed := false, printing := false }
      .emitAll ((process.thrown.bind Failure.what?).toList.map .failed)
      goTo .exited
  | .exited => return
  | .terminated => return

def receiverStep (incoming : Option Frame) : ProcessM Unit := do
  let process ← Action.get
  match process.receiver with
  | .absent => return
  | .looping => receiverGoTo (if process.client.running then .receiving else .finished)
  | .receiving => do
      .emit (.receive process.target)
      match incoming with
      | none => receiverGoTo .claiming
      | some frame => do
          ofClient (receiveNext cipher (some frame))
          receiverGoTo .looping
  | .claiming => do
      if ← claimExit then receiverGoTo .announcing else receiverGoTo .withdrawing
  | .announcing => do
      showFarewell true
      receiverGoTo .withdrawing
  | .withdrawing => do
      requestShutdown true
      receiverGoTo .finished
  | .finished => return

-- A thread that has its stream open is in the middle of a step.
def busy (process : Process) : ProcessEvent → Bool
  | .main _ => (process.urandom .main).isSome
  | .receiver _ => (process.urandom .receiver).isSome
  | _ => false

def action (event : ProcessEvent) : ProcessM Unit := do
  let process ← Action.get
  if process.main = .terminated ∨ process.busy event then return
  else
    match event with
    | .main replies => .tryCatch (mainStep cipher replies) unwind
    | .receiver incoming =>
        -- nothing catches what leaves the function of a thread
        .tryCatch (receiverStep cipher incoming) fun failure => do
          Action.modify fun process => { process with thrown := some failure }
          goTo .terminated
    | .urandom thread opened => fillRandom thread opened
    | .signal => if process.installed then requestShutdown true else return
    | .hangUp =>
        Action.modify fun process =>
          { process with client := { process.client with online := false } }

def step (process : Process) (event : ProcessEvent) : Process :=
  ((action cipher event).run process).state

def emitted (process : Process) (event : ProcessEvent) : List ProcessEffect :=
  ((action cipher event).run process).output

end Steps

end Process

end ModbusChat.Client
