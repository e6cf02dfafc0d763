import Mathlib.Data.List.Nodup
import Mathlib.Logic.Function.Basic
import ModbusChat.Shared.Ledger
import ModbusChat.Shared.Runs

set_option autoImplicit false

-- `QueuedCommandExecutor` cut into the steps between which another thread can act: a block under
-- the lock, a notification, a call on the thread handle, and the execution of a command without the
-- lock. `QueuedClientOutputView` hands its `post` and `stop` on to those of the executor.

namespace ModbusChat.Common

-- A command object and its address, which no other `unique_ptr` holds.
structure Command (γ : Type) where
  address : Nat
  action : γ
  deriving DecidableEq, Repr

/-- Where a thread is in `post` or `stop`; from the last three it can make another call. -/
inductive Caller (γ : Type) where
  | posting (command : Command γ)
  | posted
  | stopping
  | signalling
  | checking
  | joining
  | outside
  | stopped
  | failed
  deriving DecidableEq, Repr

def Caller.free {γ : Type} : Caller γ → Bool
  | .outside | .stopped | .failed => true
  | _ => false

/-- Where the dispatcher is in `dispatcher_loop`; it is asleep inside `cv_.wait`. -/
inductive Dispatcher (γ : Type) where
  | ready
  | asleep
  | executing (command : Command γ)
  | exited
  deriving DecidableEq, Repr

namespace Dispatcher

variable {γ : Type}

def hand : Dispatcher γ → Option (Command γ)
  | .executing command => some command
  | _ => none

def woken : Dispatcher γ → Dispatcher γ
  | .asleep => .ready
  | dispatcher => dispatcher

@[simp] theorem hand_woken (dispatcher : Dispatcher γ) :
    dispatcher.woken.hand = dispatcher.hand := by
  cases dispatcher <;> rfl

@[simp] theorem woken_eq_exited {dispatcher : Dispatcher γ} :
    dispatcher.woken = .exited ↔ dispatcher = .exited := by
  cases dispatcher <;> simp [woken]

@[simp] theorem woken_ne_asleep (dispatcher : Dispatcher γ) : dispatcher.woken ≠ .asleep := by
  cases dispatcher <;> simp [woken]

end Dispatcher

-- What `dispatcher_` is good for: it stays joinable until a `join` returns.
inductive Handle where
  | joinable
  | joining
  | joined
  deriving DecidableEq, Repr

/-- The executor and its threads; `accepted` and `executed` record what has happened. -/
structure QueuedCommandExecutor (ι γ τ : Type) where
  target : τ
  queue : List (Command γ) := []
  running : Bool := true
  dispatcher : Dispatcher γ := .ready
  handle : Handle := .joinable
  callers : ι → Caller γ := fun _ => .outside
  allocated : Nat := 0
  accepted : List (Command γ) := []
  executed : List (Command γ) := []

/--
`step` is the next step of a thread that is in a call, `wake` a wakeup without a notification.
-/
inductive ExecutorEvent (ι γ : Type) where
  | post (who : ι) (command : Option γ)
  | stop (who : ι)
  | step (who : ι)
  | dispatch
  | wake

namespace QueuedCommandExecutor

variable {ι γ τ : Type} [DecidableEq ι]

def move (executor : QueuedCommandExecutor ι γ τ) (who : ι) (caller : Caller γ) :
    QueuedCommandExecutor ι γ τ :=
  { executor with callers := Function.update executor.callers who caller }

def notify (executor : QueuedCommandExecutor ι γ τ) : QueuedCommandExecutor ι γ τ :=
  { executor with dispatcher := executor.dispatcher.woken }

-- The call of `post` up to the lock.
def post (executor : QueuedCommandExecutor ι γ τ) (who : ι) : Option γ → QueuedCommandExecutor ι γ τ
  | none => executor
  | some action =>
      { executor with allocated := executor.allocated + 1 }.move who
        (.posting { address := executor.allocated, action })

def advance (executor : QueuedCommandExecutor ι γ τ) (who : ι) : QueuedCommandExecutor ι γ τ :=
  match executor.callers who with
  | .posting command =>
      if ¬ executor.running then executor.move who .outside
      else
        { executor with
          queue := executor.queue ++ [command]
          accepted := executor.accepted ++ [command] }.move who .posted
  | .posted => executor.notify.move who .outside
  | .stopping => { executor with running := false }.move who .signalling
  | .signalling => executor.notify.move who .checking
  | .checking =>
      match executor.handle with
      | .joinable => { executor with handle := .joining }.move who .joining
      -- the thread is still joinable, but two cannot join it: `std::system_error`
      | .joining => executor.move who .failed
      | .joined => executor.move who .stopped
  | .joining =>
      match executor.dispatcher with
      | .exited => { executor with handle := .joined }.move who .stopped
      -- `join` blocks
      | _ => executor
  | .outside | .stopped | .failed => executor

section Loop

variable (execute : γ → τ → τ)

def dispatcherLoop (executor : QueuedCommandExecutor ι γ τ) : QueuedCommandExecutor ι γ τ :=
  match executor.dispatcher with
  | .ready =>
      match executor.queue with
      | [] => { executor with dispatcher := if executor.running then .asleep else .exited }
      | command :: queue => { executor with queue, dispatcher := .executing command }
  -- without the lock, so that others post while a command is executed
  | .executing command =>
      { executor with
        target := execute command.action executor.target
        executed := executor.executed ++ [command]
        dispatcher := .ready }
  | .asleep | .exited => executor

def step (executor : QueuedCommandExecutor ι γ τ) : ExecutorEvent ι γ → QueuedCommandExecutor ι γ τ
  | .post who command => if (executor.callers who).free then executor.post who command else executor
  | .stop who => if (executor.callers who).free then executor.move who .stopping else executor
  | .step who => executor.advance who
  | .dispatch => executor.dispatcherLoop execute
  | .wake => executor.notify

abbrev Later (executor : QueuedCommandExecutor ι γ τ) : QueuedCommandExecutor ι γ τ → Prop :=
  Runs.Reachable (· = executor) (fun _ _ => True) (step execute)

inductive Moves (executor : QueuedCommandExecutor ι γ τ) : QueuedCommandExecutor ι γ τ → Prop
  | stay : Moves executor executor
  | post {who : ι} {action : γ} (free : (executor.callers who).free) :
      Moves executor ({ executor with allocated := executor.allocated + 1 }.move who
        (.posting { address := executor.allocated, action }))
  | refuse {who : ι} {command : Command γ} (at_ : executor.callers who = .posting command)
      (stopped : executor.running = false) : Moves executor (executor.move who .outside)
  | accept {who : ι} {command : Command γ} (at_ : executor.callers who = .posting command)
      (running : executor.running = true) :
      Moves executor ({ executor with
        queue := executor.queue ++ [command]
        accepted := executor.accepted ++ [command] }.move who .posted)
  | notifyOne {who : ι} (at_ : executor.callers who = .posted) :
      Moves executor (executor.notify.move who .outside)
  | stop {who : ι} (free : (executor.callers who).free) :
      Moves executor (executor.move who .stopping)
  | shut {who : ι} (at_ : executor.callers who = .stopping) :
      Moves executor ({ executor with running := false }.move who .signalling)
  | notifyAll {who : ι} (at_ : executor.callers who = .signalling) :
      Moves executor (executor.notify.move who .checking)
  | join {who : ι} (at_ : executor.callers who = .checking) (first : executor.handle = .joinable) :
      Moves executor ({ executor with handle := .joining }.move who .joining)
  | fail {who : ι} (at_ : executor.callers who = .checking) (second : executor.handle = .joining) :
      Moves executor (executor.move who .failed)
  | skip {who : ι} (at_ : executor.callers who = .checking) (joined : executor.handle = .joined) :
      Moves executor (executor.move who .stopped)
  | joined {who : ι} (at_ : executor.callers who = .joining)
      (exited : executor.dispatcher = .exited) :
      Moves executor ({ executor with handle := .joined }.move who .stopped)
  | sleep (ready : executor.dispatcher = .ready) (empty : executor.queue = [])
      (running : executor.running = true) : Moves executor { executor with dispatcher := .asleep }
  | exit (ready : executor.dispatcher = .ready) (empty : executor.queue = [])
      (stopped : executor.running = false) : Moves executor { executor with dispatcher := .exited }
  | take {command : Command γ} {queue : List (Command γ)} (ready : executor.dispatcher = .ready)
      (next : executor.queue = command :: queue) :
      Moves executor { executor with queue, dispatcher := .executing command }
  | execute {command : Command γ} (at_ : executor.dispatcher = .executing command) :
      Moves executor { executor with
        target := execute command.action executor.target
        executed := executor.executed ++ [command]
        dispatcher := .ready }
  | wake : Moves executor executor.notify

end Loop

variable {execute : γ → τ → τ} {executor after : QueuedCommandExecutor ι γ τ}

theorem advance_moves (executor : QueuedCommandExecutor ι γ τ) (who : ι) :
    Moves execute executor (executor.advance who) := by
  unfold advance
  split
  · rename_i command at_
    by_cases running : executor.running = true
    · rw [if_neg (by simpa using running)]
      exact .accept at_ running
    · rw [if_pos running]
      exact .refuse at_ (by simpa using running)
  · exact .notifyOne ‹_›
  · exact .shut ‹_›
  · exact .notifyAll ‹_›
  · split
    · exact .join ‹_› ‹_›
    · exact .fail ‹_› ‹_›
    · exact .skip ‹_› ‹_›
  · split
    · exact .joined ‹_› ‹_›
    · exact .stay
  all_goals exact .stay

theorem dispatcherLoop_moves (executor : QueuedCommandExecutor ι γ τ) :
    Moves execute executor (executor.dispatcherLoop execute) := by
  unfold dispatcherLoop
  split
  · split
    · split
      · exact .sleep ‹_› ‹_› ‹_›
      · exact .exit ‹_› ‹_› (by simp_all)
    · exact .take ‹_› ‹_›
  · exact .execute ‹_›
  all_goals exact .stay

theorem step_moves (executor : QueuedCommandExecutor ι γ τ) (event : ExecutorEvent ι γ) :
    Moves execute executor (executor.step execute event) := by
  cases event with
  | post who command =>
    simp only [step]
    split
    · cases command with
      | none => exact .stay
      | some action => exact .post ‹_›
    · exact .stay
  | stop who =>
    simp only [step]
    split
    · exact .stop ‹_›
    · exact .stay
  | step who => exact advance_moves executor who
  | dispatch => exact dispatcherLoop_moves executor
  | wake => exact .wake

@[simp] theorem move_callers (who other : ι) (caller : Caller γ) :
    (executor.move who caller).callers other = if other = who then caller
      else executor.callers other := by
  simp only [move, Function.update_apply]

def effect (execute : γ → τ → τ) (start : τ) (commands : List (Command γ)) : τ :=
  commands.foldl (fun target command => execute command.action target) start

structure Sound (execute : γ → τ → τ) (start : τ) (executor : QueuedCommandExecutor ι γ τ) :
    Prop where
  balanced :
    Ledger.Balanced executor.accepted executor.executed executor.dispatcher.hand executor.queue
  exited : executor.dispatcher = .exited → executor.queue = [] ∧ executor.running = false
  joined : executor.handle = .joined → executor.dispatcher = .exited
  stopped (who : ι) : executor.callers who = .stopped → executor.handle = .joined
  target : executor.target = effect execute start executor.executed

section Soundness

variable {start : τ}

theorem Sound.move (sound : executor.Sound execute start) (who : ι) {caller : Caller γ}
    (fine : caller = .stopped → executor.handle = .joined) :
    (executor.move who caller).Sound execute start where
  balanced := sound.balanced
  exited := sound.exited
  joined := sound.joined
  stopped other returned := by
    rw [move_callers] at returned
    split at returned
    · exact fine returned
    · exact sound.stopped other returned
  target := sound.target

omit [DecidableEq ι] in
theorem Sound.notify (sound : executor.Sound execute start) :
    executor.notify.Sound execute start where
  balanced := by
    change Ledger.Balanced executor.accepted executor.executed executor.dispatcher.woken.hand
      executor.queue
    rw [Dispatcher.hand_woken]
    exact sound.balanced
  exited exited := sound.exited (Dispatcher.woken_eq_exited.mp exited)
  joined joined := Dispatcher.woken_eq_exited.mpr (sound.joined joined)
  stopped := sound.stopped
  target := sound.target

omit [DecidableEq ι] in
theorem Sound.of_busy (sound : executor.Sound execute start)
    (before : executor.dispatcher ≠ .exited)
    (balanced : Ledger.Balanced after.accepted after.executed after.dispatcher.hand after.queue)
    (busy : after.dispatcher ≠ .exited) (handle : after.handle = executor.handle)
    (callers : after.callers = executor.callers)
    (target : after.target = effect execute start after.executed) : after.Sound execute start where
  balanced := balanced
  exited exited := absurd exited busy
  joined joined := absurd (sound.joined (handle.symm.trans joined)) before
  stopped who returned := by
    rw [handle]
    exact sound.stopped who (callers ▸ returned)
  target := target

theorem Moves.sound (moves : Moves execute executor after) (sound : executor.Sound execute start) :
    after.Sound execute start := by
  have balanced := sound.balanced
  cases moves with
  | stay => exact sound
  | post free =>
    apply Sound.move
    · exact { sound with }
    · simp
  | refuse at_ stopped => exact sound.move _ (by simp)
  | @accept who command at_ running =>
    apply Sound.move
    · refine { sound with balanced := balanced.accept command, exited := fun exited => ?_ }
      -- nothing is accepted any more when the dispatcher is gone
      rw [(sound.exited exited).2] at running
      cases running
    · simp
  | notifyOne at_ => exact sound.notify.move _ (by simp)
  | stop free => exact sound.move _ (by simp)
  | shut at_ =>
    apply Sound.move
    · exact { sound with exited := fun exited => ⟨(sound.exited exited).1, rfl⟩ }
    · simp
  | notifyAll at_ => exact sound.notify.move _ (by simp)
  | join at_ first =>
    apply Sound.move
    · refine { sound with joined := by simp, stopped := fun other returned => ?_ }
      -- nobody is back from a `stop` while the thread is joinable
      rw [sound.stopped other returned] at first
      cases first
    · simp
  | fail at_ second => exact sound.move _ (by simp)
  | skip at_ joined => exact sound.move _ fun _ => joined
  | joined at_ exited =>
    apply Sound.move
    · exact { sound with joined := fun _ => exited, stopped := fun _ _ => rfl }
    · exact fun _ => rfl
  | sleep ready empty running =>
    rw [ready] at balanced
    exact sound.of_busy (by simp [ready]) balanced (by simp) rfl rfl sound.target
  | exit ready empty stopped =>
    rw [ready] at balanced
    exact { sound with
      balanced := balanced, exited := fun _ => ⟨empty, stopped⟩, joined := fun _ => rfl }
  | take ready next =>
    rw [ready, next] at balanced
    exact sound.of_busy (by simp [ready]) balanced.take (by simp) rfl rfl sound.target
  | execute at_ =>
    rw [at_] at balanced
    refine sound.of_busy (by simp [at_]) balanced.finish (by simp) rfl rfl ?_
    simp [effect, sound.target]
  | wake => exact sound.notify

end Soundness

structure Fresh (executor : QueuedCommandExecutor ι γ τ) : Prop where
  accepted : ∀ command ∈ executor.accepted, command.address < executor.allocated
  distinct : (executor.accepted.map Command.address).Nodup
  posting {who : ι} {command : Command γ} : executor.callers who = .posting command →
    command.address < executor.allocated ∧ command.address ∉ executor.accepted.map Command.address
  apart {who other : ι} {mine theirs : Command γ} : executor.callers who = .posting mine →
    executor.callers other = .posting theirs → mine.address = theirs.address → who = other

theorem Fresh.move (fresh : executor.Fresh) (who : ι) {caller : Caller γ}
    (other : ∀ command, caller ≠ .posting command) : (executor.move who caller).Fresh := by
  have still {one : ι} {command : Command γ}
      (at_ : (executor.move who caller).callers one = .posting command) :
      executor.callers one = .posting command := by
    rw [move_callers] at at_
    split at at_
    · exact absurd at_ (other command)
    · exact at_
  exact { fresh with
    posting := fun at_ => fresh.posting (still at_)
    apart := fun mine theirs same => fresh.apart (still mine) (still theirs) same }

theorem Fresh.post (fresh : executor.Fresh) (who : ι) (action : γ) :
    (executor.post who (some action)).Fresh := by
  have before {one : ι} {command : Command γ}
      (at_ : (executor.post who (some action)).callers one = .posting command) :
      one = who ∧ command.address = executor.allocated ∨
        one ≠ who ∧ executor.callers one = .posting command := by
    rw [QueuedCommandExecutor.post, move_callers] at at_
    split at at_
    · exact .inl ⟨‹_›, by rw [← Caller.posting.inj at_]⟩
    · exact .inr ⟨‹_›, at_⟩
  constructor
  case accepted => exact fun command member => Nat.lt_succ_of_lt (fresh.accepted command member)
  case distinct => exact fresh.distinct
  case posting =>
    intro one command at_
    obtain ⟨-, new⟩ | ⟨-, old⟩ := before at_
    · refine ⟨new ▸ Nat.lt_succ_self _, fun member => ?_⟩
      obtain ⟨earlier, among, same⟩ := List.mem_map.mp member
      have below := fresh.accepted earlier among
      omega
    · exact ⟨Nat.lt_succ_of_lt (fresh.posting old).1, (fresh.posting old).2⟩
  case apart =>
    intro one other mine theirs oneAt otherAt same
    obtain ⟨rfl, new⟩ | ⟨-, old⟩ := before oneAt <;> obtain ⟨rfl, new'⟩ | ⟨-, old'⟩ :=
      before otherAt
    · rfl
    · have below := (fresh.posting old').1
      omega
    · have below := (fresh.posting old).1
      omega
    · exact fresh.apart old old' same

theorem Fresh.accept (fresh : executor.Fresh) {who : ι} {command : Command γ}
    (at_ : executor.callers who = .posting command) :
    ({ executor with
      queue := executor.queue ++ [command]
      accepted := executor.accepted ++ [command] }.move who .posted).Fresh := by
  obtain ⟨below, new⟩ := fresh.posting at_
  have addresses : (executor.accepted ++ [command]).map Command.address =
      (executor.accepted.map Command.address).concat command.address := by simp
  have still {one : ι} {other : Command γ}
      (posting : (executor.move who .posted).callers one = .posting other) :
      one ≠ who ∧ executor.callers one = .posting other := by
    rw [move_callers] at posting
    split at posting
    · cases posting
    · exact ⟨‹_›, posting⟩
  constructor
  case accepted =>
    intro other member
    rcases List.mem_append.mp member with old | now
    · exact fresh.accepted other old
    · rwa [List.mem_singleton.mp now]
  case distinct =>
    change ((executor.accepted ++ [command]).map Command.address).Nodup
    rw [addresses]
    exact List.Nodup.concat new fresh.distinct
  case posting =>
    intro one other posting
    obtain ⟨elsewhere, old⟩ := still posting
    refine ⟨(fresh.posting old).1, ?_⟩
    change other.address ∉ (executor.accepted ++ [command]).map Command.address
    rw [addresses, List.concat_eq_append, List.mem_append, List.mem_singleton]
    -- the address of another thread's command is not the one just accepted
    exact not_or.mpr ⟨(fresh.posting old).2, fun same => elsewhere (fresh.apart old at_ same)⟩
  case apart =>
    intro one other mine theirs oneAt otherAt same
    exact fresh.apart (still oneAt).2 (still otherAt).2 same

theorem Moves.fresh (moves : Moves execute executor after) (fresh : executor.Fresh) :
    after.Fresh := by
  cases moves with
  | @post who action free => exact fresh.post who action
  | accept at_ running => exact fresh.accept at_
  | stay | wake | sleep | exit | take | execute => exact { fresh with }
  | refuse | stop | fail | skip => exact fresh.move _ (by simp)
  | notifyOne | notifyAll | shut | join | joined =>
    apply Fresh.move
    · exact { fresh with }
    · simp

theorem Moves.settled (moves : Moves execute executor after)
    (exited : executor.dispatcher = .exited) (stopped : executor.running = false) :
    after.dispatcher = .exited ∧ after.running = false ∧ after.accepted = executor.accepted ∧
      after.executed = executor.executed := by
  cases moves with
  | accept at_ running =>
    rw [stopped] at running
    cases running
  | sleep ready | exit ready | take ready =>
    rw [exited] at ready
    cases ready
  | execute at_ =>
    rw [exited] at at_
    cases at_
  | notifyOne | notifyAll | wake => exact ⟨Dispatcher.woken_eq_exited.mpr exited, stopped, rfl, rfl⟩
  | shut => exact ⟨exited, rfl, rfl, rfl⟩
  | _ => exact ⟨exited, stopped, rfl, rfl⟩

section Runs

variable {start : τ}

theorem Later.sound (reachable : Later execute { target := start } executor) :
    executor.Sound execute start := by
  refine reachable.invariant (Sound execute start) ?_ fun state event sound _ =>
    (step_moves state event).sound sound
  rintro state rfl
  exact ⟨rfl, by simp, by simp, by simp, rfl⟩

theorem Later.fresh (reachable : Later execute { target := start } executor) : executor.Fresh := by
  refine reachable.invariant Fresh ?_ fun state event fresh _ =>
    (@step_moves _ _ _ _ execute state event).fresh fresh
  rintro state rfl
  exact ⟨by simp, by simp, by simp, by simp⟩

theorem Later.settled (exited : executor.dispatcher = .exited) (stopped : executor.running = false)
    {later : QueuedCommandExecutor ι γ τ} (reached : Later execute executor later) :
    later.accepted = executor.accepted ∧ later.executed = executor.executed := by
  have settled :=
    reached.invariant (fun state => state.dispatcher = .exited ∧ state.running = false ∧
    state.accepted = executor.accepted ∧ state.executed = executor.executed) ?_ ?_
  · exact settled.2.2
  · rintro state rfl
    exact ⟨exited, stopped, rfl, rfl⟩
  · rintro state event ⟨exited, stopped, accepted, executed⟩ -
    obtain ⟨exited, stopped, same, same'⟩ :=
      (@step_moves _ _ _ _ execute state event).settled exited stopped
    exact ⟨exited, stopped, same.trans accepted, same'.trans executed⟩

/--
At every moment of every interleaving the commands executed are the first ones accepted, each one
once, and when a `stop` has returned they are all of them, now and later.
-/
theorem commands_executed_once (execute : γ → τ → τ) (start : τ)
    {executor : QueuedCommandExecutor ι γ τ}
    (reachable : Later execute { target := start } executor) :
    executor.executed <+: executor.accepted ∧ (executor.executed.map Command.address).Nodup ∧
      executor.target = effect execute start executor.executed ∧
      ∀ who, executor.callers who = .stopped →
        executor.executed = executor.accepted ∧
        ∀ later, Later execute executor later →
          later.executed = executor.executed ∧
          ∀ command ∈ later.executed, command.address < executor.allocated := by
  have sound := reachable.sound
  have fresh := reachable.fresh
  have inOrder := sound.balanced.done_le
  refine ⟨inOrder, (inOrder.map Command.address).sublist.nodup fresh.distinct, sound.target, ?_⟩
  intro who returned
  have exited := sound.joined (sound.stopped who returned)
  obtain ⟨empty, stopped⟩ := sound.exited exited
  have balanced := sound.balanced
  rw [exited, empty] at balanced
  refine ⟨balanced.settled, fun later reached => ?_⟩
  have same := (Later.settled exited stopped reached).2
  refine ⟨same, fun command member => ?_⟩
  rw [same] at member
  exact fresh.accepted command (inOrder.subset member)

end Runs

def twoProducers : QueuedCommandExecutor Bool Nat (List Nat) :=
  [ExecutorEvent.post true (some 7), .post false (some 8), .step false, .dispatch, .step true,
    .step false,
    .stop false, .step false, .dispatch, .dispatch, .step false, .step false, .dispatch, .dispatch,
    .step false, .step true, .post true (some 9), .step true].foldl
      (step fun number numbers => numbers ++ [number]) { target := [] }

theorem commands_executed_once_twoProducers :
    twoProducers.callers false = .stopped ∧ twoProducers.allocated = 3 ∧
      twoProducers.executed = [⟨1, 8⟩, ⟨0, 7⟩] ∧ twoProducers.executed = twoProducers.accepted ∧
      twoProducers.target = effect (fun number numbers => numbers ++ [number]) []
        twoProducers.executed := by
  have reachable :
      Later (fun number numbers => numbers ++ [number]) { target := [] } twoProducers :=
    Runs.Reachable.foldl (.start rfl) (by decide +kernel)
  have returned : twoProducers.callers false = .stopped := by decide +kernel
  obtain ⟨-, -, target, stopped⟩ := commands_executed_once _ [] reachable
  exact ⟨returned, by decide +kernel, by decide +kernel, (stopped false returned).1, target⟩

-- `join` is the one step of a caller that can block. It does not depend on wakeups out of nothing:
-- whoever gives the dispatcher something to do is about to notify it.

abbrev Notified (execute : γ → τ → τ) (executor : QueuedCommandExecutor ι γ τ) :
    QueuedCommandExecutor ι γ τ → Prop :=
  Runs.Reachable (· = executor) (fun _ event => event ≠ .wake) (step execute)

structure Alert (executor : QueuedCommandExecutor ι γ τ) : Prop where
  asleep : executor.dispatcher = .asleep → executor.queue = [] ∧ executor.running = true ∨
    ∃ who, executor.callers who = .posted ∨ executor.callers who = .signalling
  shut {who : ι} : executor.callers who = .signalling ∨ executor.callers who = .checking ∨
    executor.callers who = .joining → executor.running = false

section Progress

theorem Alert.move (alert : executor.Alert) {who : ι} {caller : Caller γ}
    (quiet : executor.dispatcher = .asleep →
      executor.callers who ≠ .posted ∧ executor.callers who ≠ .signalling)
    (open_ : caller = .signalling ∨ caller = .checking ∨ caller = .joining →
      executor.running = false) :
    (executor.move who caller).Alert where
  asleep asleep := by
    refine (alert.asleep asleep).imp_right ?_
    rintro ⟨other, notifying⟩
    -- the thread that is about to notify is not the one that moves
    have apart : other ≠ who := by
      rintro rfl
      exact notifying.elim (quiet asleep).1 (quiet asleep).2
    exact ⟨other, by rwa [move_callers, if_neg apart]⟩
  shut {other} at_ := by
    rw [move_callers] at at_
    split at at_
    · exact open_ at_
    · exact alert.shut at_

omit [DecidableEq ι] in
theorem Alert.notify (alert : executor.Alert) : executor.notify.Alert where
  asleep asleep := absurd asleep (Dispatcher.woken_ne_asleep _)
  shut := alert.shut

theorem Caller.free_quiet {caller : Caller γ} (free : caller.free) :
    caller ≠ .posted ∧ caller ≠ .signalling := by
  cases caller <;> simp [Caller.free] at free ⊢

theorem Moves.alert (moves : Moves execute executor after) (alert : executor.Alert) :
    after.Alert := by
  cases moves with
  | stay => exact alert
  | post free =>
    apply Alert.move
    · exact { alert with }
    · exact fun _ => Caller.free_quiet free
    · simp
  | refuse at_ => exact alert.move (by simp [at_]) (by simp)
  | @accept who command at_ running =>
    refine ⟨fun _ => .inr ⟨who, .inl (by simp)⟩, fun {other} at_ => ?_⟩
    rw [move_callers] at at_
    split at at_
    · simp at at_
    · exact alert.shut at_
  | notifyOne at_ => exact alert.notify.move (by simp [QueuedCommandExecutor.notify]) (by simp)
  | stop free => exact alert.move (fun _ => Caller.free_quiet free) (by simp)
  | @shut who at_ => exact ⟨fun _ => .inr ⟨who, .inr (by simp)⟩, fun _ => rfl⟩
  | notifyAll at_ =>
    exact alert.notify.move (by simp [QueuedCommandExecutor.notify]) fun _ => alert.shut (.inl at_)
  | join at_ first =>
    apply Alert.move
    · exact { alert with }
    · simp [at_]
    · exact fun _ => alert.shut (.inr (.inl at_))
  | fail at_ => exact alert.move (by simp [at_]) (by simp)
  | skip at_ => exact alert.move (by simp [at_]) (by simp)
  | joined at_ exited =>
    apply Alert.move
    · exact { alert with }
    · simp [at_]
    · simp
  | sleep ready empty running => exact { alert with asleep := fun _ => .inl ⟨empty, running⟩ }
  | exit | take | execute => exact { alert with asleep := by simp }
  | wake => exact alert.notify

theorem Later.alert {start : τ} (reachable : Later execute { target := start } executor) :
    executor.Alert := by
  refine reachable.invariant Alert ?_ fun state event alert _ =>
    (@step_moves _ _ _ _ execute state event).alert alert
  rintro state rfl
  exact ⟨by simp, by simp⟩

theorem executes {command : Command γ} (at_ : executor.dispatcher = .executing command) :
    ∃ later, Notified execute executor later ∧ later.dispatcher = .ready ∧
      later.queue = executor.queue ∧
      later.running = executor.running ∧ later.callers = executor.callers := by
  have done : executor.step execute .dispatch =
      { executor with
        target := execute command.action executor.target
        executed := executor.executed ++ [command]
        dispatcher := .ready } := by
    simp [step, dispatcherLoop, at_]
  exact ⟨_, .one (by simp) done, rfl, rfl, rfl, rfl⟩

theorem exits_ready {queue : List (Command γ)} (queued : executor.queue = queue)
    (stopped : executor.running = false) (ready : executor.dispatcher = .ready) :
    ∃ later, Notified execute executor later ∧ later.dispatcher = .exited ∧
      later.callers = executor.callers := by
  induction queue generalizing executor with
  | nil =>
    have done : executor.step execute .dispatch = { executor with dispatcher := .exited } := by
      simp [step, dispatcherLoop, ready, queued, stopped]
    exact ⟨_, .one (by simp) done, rfl, rfl⟩
  | cons command queue ih =>
    have takes : executor.step execute .dispatch =
        { executor with queue, dispatcher := .executing command } := by
      simp [step, dispatcherLoop, ready, queued]
    have taken :
        Notified execute executor { executor with queue, dispatcher := .executing command } :=
      .one (by simp) takes
    obtain ⟨next, executed, ready, queued, running, callers⟩ := @executes _ _ _ _ execute
      { executor with queue, dispatcher := .executing command } command rfl
    obtain ⟨later, reached, exited, same⟩ := ih queued (running.trans stopped) ready
    exact ⟨later, (taken.trans executed).trans reached, exited, same.trans callers⟩

theorem exits (stopped : executor.running = false) (awake : executor.dispatcher ≠ .asleep) :
    ∃ later, Notified execute executor later ∧ later.dispatcher = .exited ∧
      later.callers = executor.callers := by
  cases at_ : executor.dispatcher with
  | ready => exact exits_ready rfl stopped at_
  | asleep => exact absurd at_ awake
  | exited => exact ⟨executor, .start rfl, at_, rfl⟩
  | executing command =>
    obtain ⟨next, executed, ready, -, running, callers⟩ := @executes _ _ _ _ execute _ command at_
    obtain ⟨later, reached, exited, same⟩ :=
      @exits_ready _ _ _ _ execute _ _ rfl (running.trans stopped) ready
    exact ⟨later, executed.trans reached, exited, same.trans callers⟩

theorem wakes (alert : executor.Alert) (stopped : executor.running = false) {who : ι}
    (at_ : executor.callers who = .joining) :
    ∃ later, Notified execute executor later ∧ later.running = false ∧ later.dispatcher ≠ .asleep ∧
      later.callers who = .joining := by
  by_cases asleep : executor.dispatcher = .asleep
  · obtain ⟨-, running⟩ | ⟨other, notifying⟩ := alert.asleep asleep
    · rw [stopped] at running
      cases running
    · have apart : who ≠ other := by
        rintro rfl
        simp [at_] at notifying
      -- the thread that is about to notify does so
      obtain ⟨next, notifies⟩ :
        ∃ next, executor.step execute (.step other) = executor.notify.move other next := by
        rcases notifying with one | all
        · exact ⟨.outside, by simp [step, advance, one]⟩
        · exact ⟨.checking, by simp [step, advance, all]⟩
      refine ⟨_, .one (by simp) notifies, stopped, Dispatcher.woken_ne_asleep _, ?_⟩
      rw [move_callers, if_neg apart]
      exact at_
  · exact ⟨executor, .start rfl, stopped, asleep, at_⟩

-- Wherever the threads are, a `join` that has been entered can return.
theorem join_returns {start : τ} (reachable : Later execute { target := start } executor) {who : ι}
    (at_ : executor.callers who = .joining) :
    ∃ later, Notified execute executor later ∧ later.callers who = .stopped := by
  have alert := reachable.alert
  obtain ⟨woken, waking, stopped, awake, joining⟩ := @wakes _ _ _ _ execute _ alert
    (alert.shut (.inr (.inr at_))) who at_
  obtain ⟨last, exiting, exited, same⟩ := @exits _ _ _ _ execute woken stopped awake
  have returns :
      last.step execute (.step who) = { last with handle := .joined }.move who .stopped := by
    simp [step, advance, same, joining, exited]
  exact ⟨_, (waking.trans exiting).trans (.one (by simp) returns), by simp⟩

end Progress

end QueuedCommandExecutor

end ModbusChat.Common
