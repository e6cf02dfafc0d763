import ModbusChat.Client.Moves
import ModbusChat.Shared.Traces

set_option autoImplicit false

namespace ModbusChat.Client

open BigEndian Common Effects PeerKeyStore Wire

def MainPhase.leaving : MainPhase → Bool
  | .initLogger | .loadOrCreateIdentity | .connectToServer | .receiveAssignedId | .inputLoop
  | .readLine
  | .announceExit | .terminated => false
  | _ => true

def MainPhase.joined : MainPhase → Bool
  | .saveKeystore | .writeKeystore .. | .closeSocket | .clearSocket | .closeLogger | .handleFailure
  | .exited =>
      true
  | _ => false

def MainPhase.starting : MainPhase → Bool
  | .initLogger | .loadOrCreateIdentity | .connectToServer | .receiveAssignedId => true
  | _ => false

def ReceiverPhase.idle : ReceiverPhase → Bool
  | .absent | .finished => true
  | _ => false

theorem ReceiverPhase.idle_iff (phase : ReceiverPhase) :
    phase.idle ↔ phase = .absent ∨ phase = .finished := by
  cases phase <;> simp [idle]

def ProcessEffect.isFarewell : ProcessEffect → Bool
  | .exiting _ => true
  | .client _ _ (.display .serverDisconnected) => true
  | _ => false

theorem ProcessEffect.client_not_farewell {said : ClientEffect} (ordinary : said.Ordinary)
    (target : Option OpenFile) (printed : Bool) :
    (client target printed said).isFarewell = false := by
  cases said with
  | display line =>
    cases line with
    | serverDisconnected => exact absurd rfl ordinary.1
    | _ => rfl
  | _ => rfl

theorem ProcessEffect.Report.not_farewell {effect : ProcessEffect} (report : effect.Report) :
    effect.isFarewell = false := by
  cases effect with
  | client target printed said => exact client_not_farewell report.1 target printed
  | exiting printed => exact report.elim
  | _ => rfl

namespace Process

def after (cipher : Monocypher) (process : Process) (events : List ProcessEvent) : Process :=
  events.foldl (step cipher) process

def trace (cipher : Monocypher) (process : Process) (events : List ProcessEvent) :
    List ProcessEffect :=
  Runs.observed (emitted cipher) (step cipher) process events

section Invariants

variable {cipher : Monocypher} {process later : Process} {event : ProcessEvent}
  {effects : List ProcessEffect}

theorem trace_invariant (inv : Process → List ProcessEffect → Prop)
    (preserved : ∀ process event later effects seen, inv process seen →
      Moved cipher process event later effects → inv later (seen ++ effects))
    {seen : List ProcessEffect} (start : inv process seen) (events : List ProcessEvent) :
    inv (process.after cipher events) (seen ++ process.trace cipher events) := by
  induction events generalizing process seen with
  | nil => simpa [after, trace, Runs.observed] using start
  | cons event events ih =>
    have next := ih (preserved _ _ _ _ _ start (moved cipher process event))
    rwa [List.append_assoc] at next

theorem after_invariant (inv : Process → Prop)
    (preserved : ∀ process event later effects, inv process →
      Moved cipher process event later effects →
      inv later) (start : inv process) (events : List ProcessEvent) :
    inv (process.after cipher events) :=
  @trace_invariant cipher process (fun process _ => inv process)
    (fun process event later effects _ => preserved process event later effects) [] start events

theorem identified (cipher : Monocypher) (process : Process) :
    let outcome :=
      (startIdentity cipher process.keystore process.config.keystorePassword).run process.client
    Mild process.client outcome.output outcome.state :=
  Conducted.mild ((startIdentity_prepares _ _).conducts process.client) (by simp)

structure Phased (process : Process) : Prop where
  unstarted : process.main.starting → process.receiver = .absent
  joined : process.main.joined → process.receiver.idle
  prints : ¬ process.main.leaving → process.printing

theorem Moved.phased (moved : Moved cipher process event later effects) (phased : process.Phased) :
    later.Phased := by
  obtain ⟨unstarted, joined, prints⟩ := phased
  cases moved with
  | throws phase handled | shutsDown phase | leavesLoop phase =>
    constructor <;> rcases phase with phase | phase <;>
      simp_all [MainPhase.starting, MainPhase.joined, MainPhase.leaving]
  | closesLogger phase further =>
    constructor <;> split at further <;>
      simp_all [MainPhase.starting, MainPhase.joined, MainPhase.leaving]
  | joins phase done =>
    constructor <;> rcases done with done | done <;>
      simp_all [MainPhase.starting, MainPhase.joined, MainPhase.leaving, ReceiverPhase.idle]
  | _ =>
    constructor <;>
      simp_all [MainPhase.starting, MainPhase.joined, MainPhase.leaving, ReceiverPhase.idle]

theorem Phased.of_busy (phased : process.Phased) (busy : process.receiver.idle = false) :
    process.main.joined = false ∧ process.main.starting = false := by
  constructor
  · by_contra joined
    simpa [busy] using phased.joined (by simpa using joined)
  · by_contra starting
    simp [ReceiverPhase.idle, phased.unstarted (by simpa using starting)] at busy

theorem start_phased (config : ClientConfig) (keystore : Option Bytes) (random : Nat → UInt8) :
    (start config keystore random).Phased :=
  ⟨fun _ => rfl, fun joined => absurd joined (by simp [start, MainPhase.joined]), fun _ => rfl⟩

section Farewell

theorem countP_farewells (quiet : ∀ effect ∈ effects, effect.isFarewell = false) :
    effects.countP ProcessEffect.isFarewell = 0 :=
  List.countP_eq_zero.mpr fun effect member => by simp [quiet effect member]

theorem Handled.not_farewell {client : ClientViewModel} (handled : process.Handled client effects) :
    ∀ effect ∈ effects, effect.isFarewell = false := by
  intro effect member
  obtain rfl | ⟨said, ordinary, rfl⟩ := handled.effects effect member
  · rfl
  · exact ProcessEffect.client_not_farewell ordinary _ _

theorem shutdownEffects_not_farewell (unblockStdin : Bool) :
    ∀ effect ∈ process.shutdownEffects unblockStdin, effect.isFarewell = false := by
  intro effect member
  unfold shutdownEffects at member
  split_ifs at member <;> grind [ProcessEffect.isFarewell]

-- A farewell is shown by the one that has claimed it, after it has done so.
structure Announced (process : Process) (seen : List ProcessEffect) : Prop where
  said : seen.countP ProcessEffect.isFarewell =
    if process.client.exitAnnounced ∧ process.receiver ≠ .announcing then 1 else 0
  claimed : process.receiver = .announcing → process.client.exitAnnounced
  due : process.main.leaving → process.thrown.isSome ∨ process.client.exitAnnounced
  printed : .exiting false ∉ seen

theorem Announced.quietly {seen : List ProcessEffect} (announced : process.Announced seen)
    (quiet : ∀ effect ∈ effects, effect.isFarewell = false)
    (same : later.client.exitAnnounced = process.client.exitAnnounced)
    (receiver : later.receiver = .announcing ↔ process.receiver = .announcing)
    (due : later.main.leaving →
      later.thrown.isSome ∨ process.main.leaving ∧ later.thrown = process.thrown) :
    later.Announced (seen ++ effects) where
  said := by
    rw [List.countP_append, countP_farewells quiet, announced.said, same, Nat.add_zero]
    simp only [ne_eq, receiver]
  claimed announcing := same.symm ▸ announced.claimed (receiver.mp announcing)
  due leaving := by
    obtain thrown | ⟨left, unchanged⟩ := due leaving
    · exact .inl thrown
    · rw [unchanged, same]
      exact announced.due left
  printed member := (List.mem_append.mp member).elim announced.printed fun quietly =>
    Bool.noConfusion (quiet _ quietly)

theorem Moved.announced (moved : Moved cipher process event later effects) (phased : process.Phased)
    {seen : List ProcessEffect} (announced : process.Announced seen) :
    later.Announced (seen ++ effects) := by
  have reported {effects : List ProcessEffect} (reports : ∀ effect ∈ effects, effect.Report) :
      ∀ effect ∈ effects, effect.isFarewell = false :=
        fun effect member => (reports effect member).not_farewell
  have shut (unblockStdin : Bool) := @shutdownEffects_not_farewell process unblockStdin
  cases moved with
  | saysFarewell phase =>
    obtain ⟨said, claimed, due, printed⟩ := announced
    have prints : process.printing = true := phased.prints (by simp [phase, MainPhase.leaving])
    cases before : process.client.exitAnnounced with
    | true =>
      exact ⟨by simpa [before] using said, fun _ => rfl, fun _ => .inr rfl, by simpa using printed⟩
    | false =>
      have unclaimed : process.receiver ≠ .announcing := fun same => by
        simpa [before] using claimed same
      exact ⟨by simpa [before, unclaimed, ProcessEffect.isFarewell] using said, fun _ => rfl,
        fun _ => .inr rfl, by simpa [prints] using printed⟩
  | claimsExit phase first =>
    obtain ⟨said, claimed, due, printed⟩ := announced
    exact ⟨by simpa [first] using said, fun _ => rfl, fun _ => .inr rfl, by simpa using printed⟩
  | saysServerLost phase =>
    obtain ⟨said, claimed, due, printed⟩ := announced
    have before := claimed phase
    exact ⟨by simpa [before, phase, ProcessEffect.isFarewell] using said, by simp, due,
      by simpa using printed⟩
  | starts phase handled =>
    have absent := phased.unstarted (by rw [phase]; rfl)
    exact announced.quietly handled.not_farewell handled.announced (by simp [absent])
      (by simp [MainPhase.leaving])
  | throws phase handled | takesLine phase handled | takesFrame phase handled =>
    exact announced.quietly handled.not_farewell handled.announced (by simp_all)
      (by simp_all [MainPhase.leaving])
  | identifies phase reports =>
    exact announced.quietly (reported reports) (identified cipher process).announced (by simp_all)
      (by simp_all [MainPhase.leaving])
  | runsUnlogged phase reports | getsNoSocket phase reports | savesNothing phase reason reports
  | handlesFailure phase reports =>
    exact announced.quietly (reported reports) rfl (by simp_all) (by simp_all [MainPhase.leaving])
  | opensLog phase given reports | connects phase given reports | isRefused phase given reports
  | writesKeystore phase reports =>
    refine announced.quietly (fun effect member => ?_) rfl (by simp_all)
      (by simp_all [MainPhase.leaving])
    have := reports effect member
    grind [ProcessEffect.isFarewell, ProcessEffect.Report.not_farewell]
  | shutsDown phase =>
    exact announced.quietly (shut _) rfl (by simp_all) (by rcases phase with
      phase | phase <;> simp_all [MainPhase.leaving])
  | receiverShutsDown phase | isInterrupted installed =>
    exact announced.quietly (shut _) rfl (by simp_all) (by simp_all [MainPhase.leaving])
  | closesLogger phase further =>
    refine announced.quietly (fun effect member => ?_) rfl (by simp_all)
      (by simp_all [MainPhase.leaving])
    cases logged : process.logFd <;> simp_all [ProcessEffect.isFarewell]
  | checksRunning phase =>
    refine announced.quietly (by simp) rfl ?_ (by simp_all [MainPhase.leaving])
    cases process.client.running <;> simp [phase]
  | _ =>
    exact announced.quietly (by simp [ProcessEffect.isFarewell]) rfl (by simp_all)
      (by simp_all [MainPhase.leaving])

end Farewell

section Receiving

variable {config : ClientConfig} {keystore : Option Bytes} {random : Nat → UInt8}

theorem Moved.alive (moved : Moved cipher process event later effects)
    (alive : process.main ≠ .terminated) :
    later.main ≠ .terminated := by
  cases moved with
  | shutsDown phase => rcases phase with ⟨-, rfl⟩ | ⟨-, rfl⟩ <;> simp
  | closesLogger phase further => split at further <;> simp [further]
  | _ => simp_all

def Listening (process : Process) : Prop :=
  process.client.running →
    process.receiver = .absent ∨ process.receiver = .looping ∨ process.receiver = .receiving

theorem Listening.of_same (listening : process.Listening)
    (stays : process.client.running = false → later.client.running = false)
    (same : later.receiver = process.receiver) : later.Listening := by
  intro running
  rw [same]
  refine listening ?_
  by_contra stopped
  rw [stays (by simpa using stopped)] at running
  cases running

theorem Moved.listening (moved : Moved cipher process event later effects)
    (heard : event ≠ .receiver none) (listening : process.Listening) : later.Listening := by
  cases moved with
  | starts phase handled => exact fun _ => .inr (.inl rfl)
  | takesFrame phase handled => exact fun _ => .inr (.inl rfl)
  | losesServer phase => exact absurd rfl heard
  | checksRunning phase => exact fun running => .inr (.inr (by simpa using running))
  | claimsExit phase | comesLate phase | saysServerLost phase =>
    exact fun running => absurd (listening running) (by simp [phase])
  | receiverShutsDown phase | isInterrupted installed | shutsDown phase =>
    exact fun running => by cases running
  | throws phase handled | takesLine phase handled => exact listening.of_same handled.stays rfl
  | identifies phase reports => exact listening.of_same (identified cipher process).stays rfl
  | _ => exact listening.of_same id rfl

theorem after_listening (listening : process.Listening) {events : List ProcessEvent}
    (heard : .receiver none ∉ events) : (process.after cipher events).Listening := by
  induction events generalizing process with
  | nil => exact listening
  | cons event events ih =>
    exact ih ((moved cipher process event).listening (List.ne_of_not_mem_cons heard).symm listening)
      (List.not_mem_of_not_mem_cons heard)

end Receiving

end Invariants

end Process

open Process

section Life

variable (cipher : Monocypher) (config : ClientConfig) (keystore : Option Bytes)
  (random : Nat → UInt8)

/--
In every run at most one farewell is posted, and exactly one by the end of a run that no exception
has ended. The farewell of `main` always comes out; that of the receive thread may come after the
output has stopped.
-/
theorem farewell_once (events : List ProcessEvent) :
    let process := (start config keystore random).after cipher events
    let trace := (start config keystore random).trace cipher events
    trace.countP ProcessEffect.isFarewell ≤ 1 ∧
      (process.main = .exited → process.thrown = none → trace.countP ProcessEffect.isFarewell = 1) ∧
      .exiting false ∉ trace := by
  have first : (start config keystore random).Announced [] :=
    ⟨rfl, by simp [start], by simp [start, MainPhase.leaving], by simp⟩
  obtain ⟨phased, said, claimed, due, printed⟩ := @trace_invariant cipher _
    (fun process seen => process.Phased ∧ process.Announced seen)
    (fun process event later effects seen holds moved =>
      ⟨moved.phased holds.1, moved.announced holds.1 holds.2⟩) []
    ⟨start_phased config keystore random, first⟩ events
  rw [List.nil_append] at said printed
  refine ⟨by rw [said]; split <;> omega, fun ended normal => ?_, printed⟩
  have announced : ((start config keystore random).after cipher events).client.exitAnnounced := by
    simpa [normal] using due (by rw [ended]; rfl)
  -- the receive thread has been joined, so it is not about to say anything
  have idle := phased.joined (by rw [ended]; rfl)
  rw [said, if_pos ⟨announced, fun announcing => by simp [announcing, ReceiverPhase.idle] at idle⟩]

/--
No frame makes the client crash or ends the receive loop: while the client is running and no read
has failed, the thread goes on receiving, and it has ended before anything that it uses is taken
down.
-/
theorem receive_loop_survives (events : List ProcessEvent) :
    let process := (start config keystore random).after cipher events
    process.main ≠ .terminated ∧
      (process.client.running → .receiver none ∉ events →
        process.receiver = .absent ∨ process.receiver = .looping ∨ process.receiver = .receiving) ∧
      (process.main.joined → process.receiver = .absent ∨ process.receiver = .finished) := by
  refine ⟨?_, fun running heard => ?_, fun joined => ?_⟩
  · exact @after_invariant cipher (start config keystore random) (·.main ≠ .terminated)
      (fun _ _ _ _ alive moved => moved.alive alive) (by simp [start]) events
  · exact @after_listening cipher (start config keystore random) (fun _ => .inl rfl) events
      heard running
  · have phased :=
      @after_invariant cipher _ Phased (fun _ _ _ _ phased moved => moved.phased phased)
      (start_phased config keystore random) events
    exact (ReceiverPhase.idle_iff _).mp (phased.joined joined)

end Life

def started : List ProcessEvent :=
  [.main { log := some 3 }, .main {}, .main { connecting := { socket := some 4 } },
    .main { incoming := some (makeFrame .assignId (encodeAssignId 1 true)) }, .main {},
      .receiver none]

-- A signal ends the session. The number of the input goes first to the stream that a broadcast
-- draws its nonce from, then to the keystore.
def interrupted : List ProcessEvent :=
  started ++ [.signal, .urandom .main (some 0), .receiver none, .receiver none, .receiver none,
    .receiver none, .urandom .main none, .main { line := some (ascii "all:hello") },
      .main {}, .main {},
    .main {}, .main {}, .main {}, .main {}, .main {}, .main { keystore := some 0 },
      .main {}, .main {},
    .main {}, .main {}]

example :
    .client (some .socket) false (.display .serverDisconnected) ∈
      (start {} none fun _ => 0).trace transparent (started ++
        [.receiver none, .receiver none, .main {}, .main {}, .main {}, .main {}, .main {},
          .receiver none]) := by
  decide +kernel

end ModbusChat.Client
