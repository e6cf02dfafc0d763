import ModbusChat.Client.Ending

set_option autoImplicit false

-- The client closes its standard input to wake up a thread that reads from it, and may do so twice.
-- The number is then free for the next file that is opened, so a late close could reach a file that
-- it is not meant for.

namespace ModbusChat.Client

open BigEndian Common Effects PeerKeyStore Wire

-- The files that nobody may close or write to by mistake.
def OpenFile.firm : OpenFile → Bool
  | .socket | .log | .keystore => true
  | .standardInput | .urandom => false

-- What `main` has not closed again, and the keystore file that it writes.
structure Holding where
  socket : Bool := true
  log : Bool := true
  keystore : Option Descriptor := none

def MainPhase.holding : MainPhase → Holding
  | .clearSocket => { socket := false }
  | .handleFailure | .exited => { log := false }
  | .writeKeystore fd _ => { keystore := some fd }
  | _ => {}

def MainPhase.unconnected : MainPhase → Bool
  | .initLogger | .loadOrCreateIdentity | .connectToServer => true
  | _ => false

def MainPhase.disconnected : MainPhase → Bool
  | .closeLogger | .handleFailure | .exited => true
  | _ => false

theorem MainPhase.holding_of_unjoined {phase : MainPhase} (unjoined : phase.joined = false) :
    phase.holding = {} := by
  cases phase <;> simp_all [joined, holding]

-- `g_client_vm` is cleared unless an exception has led here.
def MainPhase.forgotten : MainPhase → Bool
  | .stopOutput | .shutdown | .joinReceiver => true
  | phase => phase.joined

namespace Process

-- No signal arrives before the client is connected or, after an exception, once the receive thread
-- is joined. The number of the input could otherwise be that of the socket or of the keystore.
def Timely (process : Process) : ProcessEvent → Prop
  | .signal => ¬ process.main.unconnected ∧ (process.thrown = none ∨ ¬ process.main.joined)
  | _ => True

instance (process : Process) (event : ProcessEvent) : Decidable (process.Timely event) :=
  match event with
  | .signal => inferInstanceAs (Decidable (_ ∧ (_ ∨ _)))
  | .main _ | .receiver _ | .urandom .. | .hangUp => .isTrue trivial

-- The number under which the process holds a file.
def number (process : Process) : OpenFile → Option Descriptor
  | .socket =>
    if 0 ≤ process.sessionFd ∧ process.main.holding.socket then some process.sessionFd else none
  | .log => if process.main.holding.log then process.logFd else none
  | .keystore => process.main.holding.keystore
  | .standardInput | .urandom => none

-- Which numbers are set in which phase, and which steps are in the middle of drawing.
structure Numbered (process : Process) : Prop where
  unset : process.main.unconnected → ¬ 0 ≤ process.sessionFd
  unlogged : process.main = .initLogger → process.logFd = none
  closed : process.main.disconnected → ¬ 0 ≤ process.sessionFd
  draws : ∀ thread, process.urandom thread ≠ none → process.draws thread

-- Each number stands for the file that the process takes it for. That of a stream may be lost, but
-- it is not another file's, and that of the input is at most given to the keystore.
structure Kept (process : Process) : Prop where
  lists : process.descriptors.Lists (·.firm) process.number
  input : ∀ fd, process.descriptors.lookup fd = some .standardInput → fd = STDIN_FILENO
  streams : ∀ fd, process.descriptors.lookup fd = some .urandom →
    ∃ thread, process.urandom thread = some fd
  loose : ∀ thread fd, process.urandom thread = some fd →
    process.descriptors.lookup fd = some .urandom ∨ process.descriptors.lookup fd = none
  zero : ∀ file, process.number file = some STDIN_FILENO → file = .keystore
  first : process.main.unconnected → process.descriptors.lookup STDIN_FILENO = some .standardInput

section Invariants

variable {cipher : Monocypher} {process later : Process} {event : ProcessEvent}
  {effects : List ProcessEffect}

section Numbers

-- Nothing but `main` and `fill_random` changes what is drawn in.
theorem Moved.draws (moved : Moved cipher process event later effects)
    (free : process.busy event = false)
    (phased : process.Phased) (drawn : ∀ thread, process.urandom thread ≠ none →
      process.draws thread) :
    ∀ thread, later.urandom thread ≠ none → later.draws thread := by
  intro thread stream
  cases moved with
  | rests blocked => exact drawn thread stream
  | opensUrandom may unused | closesUrandom held spares =>
    simp only [Function.update_apply, ne_eq] at stream
    split_ifs at stream with same
    all_goals
      cases thread <;>
        first | exact drawn _ stream | exact same ▸ may | exact absurd rfl stream
  | starts phase handled =>
    cases thread with
    | main => simp_all [busy]
    | receiver =>
      have absent := phased.unstarted (by rw [phase]; rfl)
      simpa [Process.draws, absent] using drawn .receiver stream
  | checksRunning phase | losesServer phase | takesFrame phase | claimsExit phase | comesLate phase
  | saysServerLost phase | receiverShutsDown phase =>
    cases thread with
    | main => exact drawn .main stream
    | receiver => simp_all [busy]
  | isInterrupted installed | isCutOff => cases thread <;> exact drawn _ stream
  | _ =>
    cases thread with
    | main => simp_all [busy]
    | receiver => exact drawn .receiver stream

theorem Moved.numbered (moved : Moved cipher process event later effects)
    (free : process.busy event = false) (phased : process.Phased) (numbered : process.Numbered) :
    later.Numbered := by
  have draws := moved.draws free phased numbered.draws
  obtain ⟨unset, unlogged, closed, -⟩ := numbered
  have negative : ¬ (0 : Int32) ≤ -1 := by decide
  cases moved with
  | leavesLoop phase | throws phase handled | shutsDown phase =>
    refine ⟨?_, ?_, ?_, draws⟩ <;> rcases phase with phase | phase <;>
      simp_all [MainPhase.unconnected, MainPhase.disconnected]
  | closesLogger phase further =>
    refine ⟨?_, ?_, ?_, draws⟩ <;> split at further <;>
      simp_all [MainPhase.unconnected, MainPhase.disconnected]
  | rests blocked => exact ⟨unset, unlogged, closed, draws⟩
  | _ =>
    refine ⟨?_, ?_, ?_, draws⟩ <;> simp_all [MainPhase.unconnected, MainPhase.disconnected]

end Numbers

section Files

theorem Kept.of_same (kept : process.Kept)
    (table : ∀ fd, later.descriptors.lookup fd = process.descriptors.lookup fd)
    (number : later.number = process.number) (streams : later.urandom = process.urandom)
    (early : later.main.unconnected → process.main.unconnected) : later.Kept where
  lists := kept.lists.of_same table fun file _ => congrFun number file
  input fd found := kept.input fd (table fd ▸ found)
  streams fd found := streams ▸ kept.streams fd (table fd ▸ found)
  loose thread fd stream := by
    rw [table]
    exact kept.loose thread fd (streams ▸ stream)
  zero file held := kept.zero file (number ▸ held)
  first unconnected := by
    rw [table]
    exact kept.first (early unconnected)

theorem ne_of_fresh {place fd : Descriptor} {file : OpenFile}
    (taken : process.descriptors.lookup place = some file)
    (fresh : process.descriptors.lookup fd = none) :
    place ≠ fd := by
  rintro rfl
  rw [fresh] at taken
  cases taken

theorem Kept.opens (kept : process.Kept) {fd : Descriptor} (file : OpenFile) (firm : file.firm)
    (fresh : process.descriptors.lookup fd = none) (unheld : process.number file = none)
    (table : later.descriptors = process.descriptors.insert fd file)
    (number : later.number = Function.update process.number file (some fd))
    (streams : later.urandom = process.urandom) (calm : ∀ thread, process.urandom thread = none)
    (zero : fd = STDIN_FILENO → file = .keystore)
    (early : later.main.unconnected → process.main.unconnected) : later.Kept := by
  have found (other : Descriptor) : later.descriptors.lookup other =
      if other = fd then some file else process.descriptors.lookup other := by
    rw [table, Table.lookup_insert_eq]
  refine ⟨?_, fun other held => ?_, fun other held => ?_, fun thread other stream => ?_,
    fun other held => ?_, fun unconnected => ?_⟩
  · rw [table, number]
    exact kept.lists.insert fresh unheld
  · rw [found] at held
    split_ifs at held
    · simp [Option.some.inj held, OpenFile.firm] at firm
    · exact kept.input other held
  · rw [found] at held
    split_ifs at held
    · simp [Option.some.inj held, OpenFile.firm] at firm
    · exact streams ▸ kept.streams other held
  · rw [streams, calm] at stream
    cases stream
  · rw [number, Function.update_apply] at held
    split_ifs at held with same
    · exact same.trans (zero (Option.some.inj held))
    · exact kept.zero other held
  · have input := kept.first (early unconnected)
    rw [found, if_neg (ne_of_fresh input fresh)]
    exact input

theorem Kept.closes (kept : process.Kept) {fd : Descriptor}
    (table : later.descriptors = process.descriptors.erase fd)
    (number : ∀ file, later.number file = if process.number file = some fd then none
      else process.number file)
    (streams : ∀ thread, later.urandom thread = process.urandom thread ∨
      later.urandom thread = none ∧ process.urandom thread = some fd)
    (early : later.main.unconnected → process.main.unconnected ∧ fd ≠ STDIN_FILENO) :
    later.Kept := by
  have found (other : Descriptor) : later.descriptors.lookup other =
      if other = fd then none else process.descriptors.lookup other := by
    rw [table, Table.lookup_erase_eq]
  refine ⟨?_, fun other held => ?_, fun other held => ?_, fun thread other stream => ?_,
    fun file held => ?_, fun unconnected => ?_⟩
  · rw [table, funext number]
    exact kept.lists.erase fd
  · rw [found] at held
    split_ifs at held
    exact kept.input other held
  · rw [found] at held
    split_ifs at held with apart
    obtain ⟨thread, stream⟩ := kept.streams other held
    obtain same | ⟨-, lost⟩ := streams thread
    · exact ⟨thread, same.trans stream⟩
    · exact absurd (Option.some.inj (stream.symm.trans lost)) apart
  · obtain same | ⟨lost, -⟩ := streams thread
    · rw [found]
      split_ifs
      · exact .inr rfl
      · exact kept.loose thread other (same.symm.trans stream)
    · rw [lost] at stream
      cases stream
  · rw [number] at held
    split_ifs at held
    exact kept.zero file held
  · obtain ⟨before, other⟩ := early unconnected
    rw [found, if_neg other.symm]
    exact kept.first before

theorem Kept.opensUrandom (kept : process.Kept) {fd : Descriptor} {thread : ProcessThread}
    (fresh : process.descriptors.lookup fd = none) (unused : process.urandom thread = none)
    (table : later.descriptors = process.descriptors.insert fd .urandom)
    (number : later.number = process.number)
    (streams : later.urandom = Function.update process.urandom thread (some fd))
    (early : later.main.unconnected → process.main.unconnected) : later.Kept := by
  have found (other : Descriptor) : later.descriptors.lookup other =
      if other = fd then some .urandom else process.descriptors.lookup other := by
    rw [table, Table.lookup_insert_eq]
  refine ⟨?_, fun other held => ?_, fun other held => ?_, fun user other stream => ?_,
    number ▸ kept.zero,
    fun unconnected => ?_⟩
  · have listed := kept.lists.insert fresh (by rfl : process.number .urandom = none)
    rw [← table] at listed
    refine listed.of_same (fun _ => rfl) fun file firm => ?_
    rw [number, Function.update_of_ne (by rintro rfl; simp [OpenFile.firm] at firm)]
  · rw [found] at held
    split_ifs at held
    · cases held
    · exact kept.input other held
  · rw [found] at held
    split_ifs at held with same
    · exact ⟨thread, by rw [streams, same, Function.update_self]⟩
    · obtain ⟨user, stream⟩ := kept.streams other held
      have apart : user ≠ thread := by
        rintro rfl
        rw [unused] at stream
        cases stream
      exact ⟨user, by rw [streams, Function.update_of_ne apart, stream]⟩
  · rw [streams, Function.update_apply] at stream
    rw [found]
    split_ifs at stream with mine
    · exact .inl (if_pos (Option.some.inj stream).symm)
    · split_ifs
      · exact .inl rfl
      · exact kept.loose user other stream
  · have input := kept.first (early unconnected)
    rw [found, if_neg (ne_of_fresh input fresh)]
    exact input

theorem Kept.apart (kept : process.Kept) {fd : Descriptor} {file other : OpenFile}
    (firm : file.firm)
    (held : process.number file = some fd) (different : other ≠ file) :
    process.number other ≠ some fd := by
  intro same
  have firmly : other.firm := by cases other <;> simp_all [number, OpenFile.firm]
  have first := (kept.lists fd file firm).mpr held
  rw [(kept.lists fd other firmly).mpr same] at first
  exact different (Option.some.inj first)

theorem Kept.closesOwn (kept : process.Kept) {fd : Descriptor} (file : OpenFile) (firm : file.firm)
    (held : process.number file = some fd)
    (table : later.descriptors = process.descriptors.erase fd)
    (number : later.number = Function.update process.number file none)
    (streams : later.urandom = process.urandom) (connected : later.main.unconnected = false) :
    later.Kept := by
  refine kept.closes table (fun other => ?_) (fun thread => .inl (congrFun streams thread))
    (by simp [connected])
  rw [number, Function.update_apply]
  split_ifs with same taken taken
  · rfl
  · exact absurd (same ▸ held) taken
  · exact absurd taken (kept.apart firm held same)
  · rfl

theorem Kept.closesLoose (kept : process.Kept) {fd : Descriptor}
    (table : later.descriptors = process.descriptors.erase fd)
    (unheld : ∀ file, process.number file ≠ some fd) (number : later.number = process.number)
    (streams : ∀ thread, later.urandom thread = process.urandom thread ∨
      later.urandom thread = none ∧ process.urandom thread = some fd)
    (early : later.main.unconnected → process.main.unconnected ∧ fd ≠ STDIN_FILENO) : later.Kept :=
  kept.closes table (fun file => by rw [if_neg (unheld file), number]) streams early

theorem Kept.unheld_stream (kept : process.Kept) {fd : Descriptor} {thread : ProcessThread}
    (stream : process.urandom thread = some fd) (file : OpenFile) :
    process.number file ≠ some fd := by
  intro held
  have firm : file.firm := by cases file <;> simp_all [number, OpenFile.firm]
  have found := (kept.lists fd file firm).mpr held
  obtain still | lost := kept.loose thread fd stream
  · rw [found] at still
    simp [Option.some.inj still, OpenFile.firm] at firm
  · rw [found] at lost
    cases lost

theorem Kept.unheld_input (kept : process.Kept) (unjoined : process.main.joined = false)
    (file : OpenFile) :
    process.number file ≠ some STDIN_FILENO := by
  intro held
  obtain rfl := kept.zero file held
  simp [number, MainPhase.holding_of_unjoined unjoined] at held

end Files

theorem number_of_same (sessionFd : later.sessionFd = process.sessionFd)
    (logFd : later.logFd = process.logFd)
    (holding : later.main.holding = process.main.holding) : later.number = process.number := by
  funext file
  cases file <;> simp [number, sessionFd, logFd, holding]

-- When `main` opens a file, it is not in `fill_random`, and the other thread is not there.
theorem Numbered.calm (numbered : process.Numbered) {replies : Replies}
    (free : process.busy (.main replies) = false) (idle : process.receiver.idle) :
    ∀ thread, process.urandom thread = none
  | .main => by simpa [busy] using free
  | .receiver => by
      by_contra stream
      have receiving := numbered.draws .receiver stream
      simp only [Process.draws, decide_eq_true_eq] at receiving
      simp [receiving, ReceiverPhase.idle] at idle

-- The receive thread is joined before the keystore is saved, and runs only with a connection.
theorem Phased.receiving (phased : process.Phased) (busy : process.receiver.idle = false) :
    process.main.joined = false ∧ process.main.unconnected = false := by
  obtain ⟨unjoined, started⟩ := phased.of_busy busy
  refine ⟨unjoined, ?_⟩
  cases phase : process.main <;> simp_all [MainPhase.unconnected, MainPhase.starting]

-- The signal handler does nothing once `run` has returned.
def Forgotten (process : Process) : Prop :=
  process.main.forgotten → process.thrown = none → process.installed = false

theorem Moved.forgotten (moved : Moved cipher process event later effects)
    (forgotten : process.Forgotten) :
    later.Forgotten := by
  unfold Forgotten at *
  cases moved with
  | throws phase handled | leavesLoop phase | shutsDown phase =>
    rcases phase with phase | phase <;> simp_all [MainPhase.forgotten, MainPhase.joined]
  | closesLogger phase further =>
    split at further <;> simp_all [MainPhase.forgotten, MainPhase.joined]
  | rests blocked => exact forgotten
  | _ => simp_all [MainPhase.forgotten, MainPhase.joined]

theorem Timely.unjoined (timely : process.Timely .signal) (forgotten : process.Forgotten)
    (installed : process.installed) : process.main.joined = false := by
  by_contra joined
  have thrown := timely.2.resolve_right (not_not.mpr (by simpa using joined))
  have late : process.main.forgotten := by
    cases phase : process.main <;> simp_all [MainPhase.forgotten, MainPhase.joined]
  rw [forgotten late thrown] at installed
  cases installed

theorem Moved.kept (moved : Moved cipher process event later effects)
    (free : process.busy event = false)
    (phased : process.Phased) (forgotten : process.Forgotten) (numbered : process.Numbered)
    (kernel : process.Kernel event) (timely : process.Timely event) (kept : process.Kept) :
    later.Kept := by
  have absent (starting : process.main.starting) : process.receiver.idle := by
    rw [phased.unstarted starting]
    rfl
  cases moved with
  | rests blocked => exact kept
  | opensLog phase given reports =>
    obtain ⟨-, fresh⟩ := kernel.fresh (by simpa [Process.given, phase] using given)
    have input := kept.first (by rw [phase]; rfl)
    refine kept.opens .log rfl fresh ?_ rfl ?_
      rfl (numbered.calm free (absent (by rw [phase]; rfl)))
      (fun same => absurd same.symm (ne_of_fresh input fresh))
      (by simp [phase, MainPhase.unconnected])
    · simp [number, numbered.unlogged phase]
    · funext file
      cases file <;> simp [number, phase, MainPhase.holding]
  | connects phase given reports =>
    obtain ⟨valid, fresh⟩ := kernel.fresh (by simpa [Process.given, phase] using given)
    have input := kept.first (by rw [phase]; rfl)
    refine kept.opens .socket rfl fresh ?_ rfl ?_
      rfl (numbered.calm free (absent (by rw [phase]; rfl)))
      (fun same => absurd same.symm (ne_of_fresh input fresh)) (by simp [MainPhase.unconnected])
    · simp [number, numbered.unset (by rw [phase]; rfl)]
    · funext file
      cases file <;> simp [number, phase, MainPhase.holding, valid]
  | isRefused phase given reports =>
    obtain ⟨-, fresh⟩ := kernel.fresh (by simpa [Process.given, phase] using given)
    refine kept.of_same (fun other => ?_) (number_of_same rfl rfl (by rw [phase]; rfl)) rfl
      (by simp [MainPhase.unconnected])
    rw [Table.lookup_erase_eq, Table.lookup_insert_eq]
    split_ifs with same
    · rw [same, fresh]
    · rfl
  | opensKeystore phase given identity serialized saltSize nonceSize =>
    obtain ⟨-, fresh⟩ := kernel.fresh (by simpa [Process.given, phase] using given)
    refine kept.opens .keystore rfl fresh ?_ rfl ?_ rfl
      (numbered.calm free (phased.joined (by rw [phase]; rfl))) (fun _ => rfl)
      (by simp [MainPhase.unconnected])
    · simp [number, phase, MainPhase.holding]
    · funext file
      cases file <;> simp [number, phase, MainPhase.holding]
  | writesKeystore phase reports spares =>
    refine kept.closesOwn .keystore rfl (by simp [number, phase, MainPhase.holding]) rfl ?_ rfl rfl
    funext file
    cases file <;> simp [number, phase, MainPhase.holding]
  | closesSocket phase connected spares =>
    refine kept.closesOwn .socket rfl ?_ rfl ?_ rfl rfl
    · simp [number, phase, MainPhase.holding, connected]
    · funext file
      cases file <;> simp [number, phase, MainPhase.holding]
  | @closesLogger _ _ next phase further spares =>
    have before : process.main.holding = {} := by rw [phase]; rfl
    have ended : next.holding = { log := false } ∧ next.unconnected = false := by
      rw [further]
      split <;> exact ⟨rfl, rfl⟩
    cases logged : process.logFd with
    | none =>
      refine kept.of_same (fun _ => rfl) ?_ rfl (by simp [ended])
      funext file
      cases file <;> simp [number, before, ended, logged]
    | some fd =>
      refine @Kept.closesOwn process _ kept fd .log rfl ?_ rfl ?_ rfl ended.2
      · simp [number, before, logged]
      · funext file
        cases file <;> simp [number, before, ended]
  | clearsSocket phase =>
    refine kept.of_same (fun _ => rfl) ?_ rfl (by simp [MainPhase.unconnected])
    funext file
    cases file <;> simp [number, phase, MainPhase.holding]
  | opensUrandom may unused =>
    exact kept.opensUrandom (kernel.fresh rfl).2 unused rfl rfl rfl id
  | closesUrandom stream spares =>
    refine kept.closesLoose rfl (kept.unheld_stream stream) rfl (fun thread => ?_)
      fun early => ⟨early, ?_⟩
    · simp only [Function.update_apply]
      split_ifs with same
      · exact .inr ⟨rfl, same ▸ stream⟩
      · exact .inl rfl
    · rintro rfl
      simpa [kept.first early] using kept.loose _ _ stream
  | receiverShutsDown phase spares =>
    obtain ⟨unjoined, connected⟩ := phased.receiving (by simp [phase, ReceiverPhase.idle])
    exact kept.closesLoose rfl (kept.unheld_input unjoined) rfl (fun _ => .inl rfl)
      (by simp [connected])
  | isInterrupted installed spares =>
    exact kept.closesLoose rfl (kept.unheld_input (timely.unjoined forgotten installed))
      rfl (fun _ => .inl rfl)
      fun early => absurd early timely.1
  | throws phase handled | leavesLoop phase | shutsDown phase =>
    rcases phase with phase | phase <;>
      exact kept.of_same (fun _ => rfl)
        (number_of_same rfl rfl (by simp_all [MainPhase.holding])) rfl
        (by simp_all [MainPhase.unconnected])
  | _ =>
    exact kept.of_same (fun _ => rfl) (number_of_same rfl rfl (by simp_all [MainPhase.holding])) rfl
      (by simp_all [MainPhase.unconnected])

section Hits

theorem Kept.target (kept : process.Kept) (valid : 0 ≤ process.sessionFd)
    (uncleared : process.main.holding.socket) : process.target = some .socket :=
  (kept.lists process.sessionFd .socket rfl).mpr (by simp [number, valid, uncleared])

end Hits

end Invariants

end Process

open Process

-- An early signal closes the input, whose number then goes to the socket, and a second one closes
-- that.
example :
    .closed .standardInput 0 (some .socket) ∈ (start {} none fun _ => 0).trace transparent
      [.main {}, .main {}, .signal, .main { connecting := { socket := some 0 } }, .signal] := by
  decide +kernel

end ModbusChat.Client
