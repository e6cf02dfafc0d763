import Mathlib.Logic.Function.Basic
import ModbusChat.Shared.Bytes
import ModbusChat.Shared.Ledger
import ModbusChat.Shared.Runs

set_option autoImplicit false

-- `FileLogger` cut into the steps between which another thread can act: a block under the lock, a
-- notification, a `join`, and what `write_entry` does to the stream without the lock. Any number of
-- threads log and flush; one thread, the owner, opens and stops the logger. Writing to an open
-- stream succeeds.

namespace ModbusChat.Logging

open BigEndian

structure Entry where
  level : Bytes
  message : Bytes
  deriving DecidableEq, Repr

def info (message : Bytes) : Entry := { level := ascii "INFO", message }
def warn (message : Bytes) : Entry := { level := ascii "WARN", message }
def error (message : Bytes) : Entry := { level := ascii "ERROR", message }

structure Record where
  path : Bytes
  timestamp : Bytes
  entry : Entry
  deriving DecidableEq, Repr

def Record.text (record : Record) : Bytes :=
  record.timestamp ++ 32 :: (record.entry.level ++ 32 :: (record.entry.message ++ [10]))

-- The file stream; what is in its buffer is written but not flushed.
structure Stream where
  isOpen : Bool := false
  buffer : List Record := []
  deriving DecidableEq, Repr

/--
Where the writer is in `writer_loop`: asleep inside `cv_has_work_.wait`, or before or after the
entry in its hand is written to the stream. There is a thread to join unless it is absent.
-/
inductive Writer where
  | absent
  | ready
  | asleep
  | holding (entry : Entry)
  | buffered (entry : Entry)
  | exited
  deriving DecidableEq, Repr

namespace Writer

def hand : Writer → Option Entry
  | .holding entry | .buffered entry => some entry
  | _ => none

def unflushed : Writer → Option Entry
  | .buffered entry => some entry
  | _ => none

def woken : Writer → Writer
  | .asleep => .ready
  | writer => writer

@[simp] theorem hand_woken (writer : Writer) : writer.woken.hand = writer.hand := by
  cases writer <;> rfl

@[simp] theorem unflushed_woken (writer : Writer) : writer.woken.unflushed = writer.unflushed := by
  cases writer <;> rfl

@[simp] theorem woken_eq_exited {writer : Writer} : writer.woken = .exited ↔ writer = .exited := by
  cases writer <;> simp [woken]

@[simp] theorem woken_eq_absent {writer : Writer} : writer.woken = .absent ↔ writer = .absent := by
  cases writer <;> simp [woken]

@[simp] theorem woken_ne_asleep (writer : Writer) : writer.woken ≠ .asleep := by
  cases writer <;> simp [woken]

end Writer

/--
Where a thread is in `enqueue` or `flush`, with the entries that had been accepted when `flush` was
called. It is waiting inside `cv_drained_.wait`, and has flushed when that returns.
-/
inductive Caller where
  | outside
  | enqueuing (entry : Entry)
  | enqueued
  | flushing (before : List Entry)
  | waiting (before : List Entry)
  | flushed (before : List Entry)
  deriving DecidableEq, Repr

def Caller.free : Caller → Bool
  | .outside | .flushed _ => true
  | _ => false

def Caller.woken : Caller → Caller
  | .waiting before => .flushing before
  | caller => caller

/-- Where the owner is in `stop`, and the path if it is `open` that has called it. -/
inductive Owner where
  | outside
  | stopping (next : Option Bytes)
  | signalling (next : Option Bytes)
  | joining (next : Option Bytes)
  | closing (next : Option Bytes)
  | opening (path : Bytes)
  deriving DecidableEq, Repr

def Owner.alone : Owner → Bool
  | .closing _ | .opening _ => true
  | _ => false

def Owner.stopped : Option Bytes → Owner
  | none => .outside
  | some path => .opening path

/--
The logger and its threads; `accepted` and `disk` record what was accepted and what was flushed.
-/
structure FileLogger (ι : Type) where
  path : Bytes := []
  stream : Stream := {}
  queue : List Entry := []
  running : Bool := false
  isOpen : Bool := false
  writer : Writer := .absent
  callers : ι → Caller := fun _ => .outside
  owner : Owner := .outside
  accepted : List Entry := []
  disk : List Record := []

/--
`step`, `write` and `manage` are the next step of a caller, of the writer with the time it reads,
and of the owner with whether the file can be opened; `wakeWriter` and `wake` are wakeups without a
notification.
-/
inductive Event (ι : Type) where
  | log (who : ι) (entry : Entry)
  | flush (who : ι)
  | step (who : ι)
  | write (timestamp : Bytes)
  | open_ (path : Bytes)
  | stop
  | manage (opens : Bool)
  | wakeWriter
  | wake (who : ι)

def Event.spurious {ι : Type} : Event ι → Bool
  | .wakeWriter | .wake _ => true
  | _ => false

namespace FileLogger

variable {ι : Type}

def written (logger : FileLogger ι) : List Entry := logger.disk.map Record.entry

def file (logger : FileLogger ι) (path : Bytes) : Bytes :=
  (logger.disk.filter (·.path = path)).flatMap Record.text

def notifyWork (logger : FileLogger ι) : FileLogger ι :=
  { logger with writer := logger.writer.woken }

def notifyDrained (logger : FileLogger ι) : FileLogger ι :=
  { logger with callers := fun who => (logger.callers who).woken }

def writeEntry (logger : FileLogger ι) (timestamp : Bytes) (entry : Entry) : FileLogger ι :=
  if ¬ logger.stream.isOpen then { logger with writer := .ready }
  else
    let record := { path := logger.path, timestamp, entry }
    { logger with
      stream := { logger.stream with buffer := logger.stream.buffer ++ [record] }
      writer := .buffered entry }

def flushStream (logger : FileLogger ι) : FileLogger ι :=
  { logger with
    stream := { logger.stream with buffer := [] }
    disk := logger.disk ++ logger.stream.buffer }

def writerLoop (logger : FileLogger ι) (timestamp : Bytes) : FileLogger ι :=
  match logger.writer with
  | .ready =>
      match logger.queue with
      | [] =>
          -- `wait` only returns with an empty queue once `running_` is false: `continue` is never
          -- reached
          if logger.running then { logger with writer := .asleep }
          else { logger.notifyDrained with writer := .exited }
      | entry :: queue =>
          -- the callers of `flush` are notified while this entry is still to be written
          let logger := if queue = [] then logger.notifyDrained else logger
          { logger with queue, writer := .holding entry }
  | .holding entry => logger.writeEntry timestamp entry
  | .buffered _ => { logger.flushStream with writer := .ready }
  | .absent | .asleep | .exited => logger

-- `open` and `stop`, which is the first thing that `open` calls.
def manage (logger : FileLogger ι) (opens : Bool) : FileLogger ι :=
  match logger.owner with
  | .outside => logger
  | .stopping next =>
      if ¬ logger.running ∧ logger.writer = .absent then { logger with owner := .stopped next }
      else { logger with running := false, owner := .signalling next }
  | .signalling next => { logger.notifyWork with owner := .joining next }
  | .joining next =>
      match logger.writer with
      | .absent => { logger with owner := .closing next }
      | .exited => { logger with writer := .absent, owner := .closing next }
      -- `join` blocks
      | _ => logger
  | .closing next =>
      let logger :=
        if logger.stream.isOpen then { logger.flushStream with stream := {} } else logger
      { logger with isOpen := false, queue := [], owner := .stopped next }
  | .opening path =>
      -- to open a stream that is open fails, and leaves it open
      let stream := { logger.stream with isOpen := logger.stream.isOpen || opens }
      if ¬ stream.isOpen then { logger with path, stream, isOpen := false, owner := .outside }
      else
        { logger with
          path, stream, isOpen := true, running := true, writer := .ready, owner := .outside }

variable [DecidableEq ι]

def move (logger : FileLogger ι) (who : ι) (caller : Caller) : FileLogger ι :=
  { logger with callers := Function.update logger.callers who caller }

def advance (logger : FileLogger ι) (who : ι) : FileLogger ι :=
  match logger.callers who with
  | .enqueuing entry =>
      if ¬ logger.running ∨ ¬ logger.isOpen then logger.move who .outside
      else
        { logger with
          queue := logger.queue ++ [entry]
          accepted := logger.accepted ++ [entry] }.move who .enqueued
  | .enqueued => logger.notifyWork.move who .outside
  | .flushing before =>
      if logger.queue = [] then logger.move who (.flushed before)
        else logger.move who (.waiting before)
  | .outside | .waiting _ | .flushed _ => logger

def step (logger : FileLogger ι) : Event ι → FileLogger ι
  | .log who entry =>
    if (logger.callers who).free then logger.move who (.enqueuing entry) else logger
  | .flush who =>
      if (logger.callers who).free then logger.move who (.flushing logger.accepted) else logger
  | .step who => logger.advance who
  | .write timestamp => logger.writerLoop timestamp
  | .open_ path =>
    if logger.owner = .outside then { logger with owner := .stopping (some path) } else logger
  | .stop => if logger.owner = .outside then { logger with owner := .stopping none } else logger
  | .manage opens => logger.manage opens
  | .wakeWriter => logger.notifyWork
  | .wake who =>
      match logger.callers who with
      | .waiting before => logger.move who (.flushing before)
      | _ => logger

abbrev Later (logger : FileLogger ι) : FileLogger ι → Prop :=
  Runs.Reachable (· = logger) (fun _ _ => True) step

inductive Moves (logger : FileLogger ι) : FileLogger ι → Prop
  | stay : Moves logger logger
  | log {who : ι} {entry : Entry} (free : (logger.callers who).free) :
      Moves logger (logger.move who (.enqueuing entry))
  | refuse {who : ι} {entry : Entry} (at_ : logger.callers who = .enqueuing entry) :
      Moves logger (logger.move who .outside)
  | accept {who : ι} {entry : Entry} (at_ : logger.callers who = .enqueuing entry)
      (running : logger.running = true) :
      Moves logger ({ logger with
        queue := logger.queue ++ [entry]
        accepted := logger.accepted ++ [entry] }.move who .enqueued)
  | notify {who : ι} (at_ : logger.callers who = .enqueued) :
      Moves logger (logger.notifyWork.move who .outside)
  | flush {who : ι} (free : (logger.callers who).free) :
      Moves logger (logger.move who (.flushing logger.accepted))
  | wait {who : ι} {before : List Entry} (at_ : logger.callers who = .flushing before)
      (pending : logger.queue ≠ []) : Moves logger (logger.move who (.waiting before))
  | flushed {who : ι} {before : List Entry} (at_ : logger.callers who = .flushing before)
      (drained : logger.queue = []) : Moves logger (logger.move who (.flushed before))
  | wake {who : ι} {before : List Entry} (at_ : logger.callers who = .waiting before) :
      Moves logger (logger.move who (.flushing before))
  | sleep (ready : logger.writer = .ready) (empty : logger.queue = [])
      (running : logger.running = true) :
      Moves logger { logger with writer := .asleep }
  | exit (ready : logger.writer = .ready) (empty : logger.queue = [])
      (stopped : logger.running = false) :
      Moves logger { logger.notifyDrained with writer := .exited }
  | take {entry : Entry} {queue : List Entry} (ready : logger.writer = .ready)
      (next : logger.queue = entry :: queue) :
      Moves logger { (if queue = [] then logger.notifyDrained else logger) with
        queue, writer := .holding entry }
  | skip {entry : Entry} (at_ : logger.writer = .holding entry)
      (closed : logger.stream.isOpen = false) :
      Moves logger { logger with writer := .ready }
  | write {entry : Entry} {record : Record} (at_ : logger.writer = .holding entry)
      (same : record.entry = entry) :
      Moves logger { logger with
        stream := { logger.stream with buffer := logger.stream.buffer ++ [record] }
        writer := .buffered entry }
  | flushStream {entry : Entry} (at_ : logger.writer = .buffered entry) :
      Moves logger { logger.flushStream with writer := .ready }
  | wakeWriter : Moves logger logger.notifyWork
  | call {next : Option Bytes} (free : logger.owner = .outside) :
      Moves logger { logger with owner := .stopping next }
  | idle {next : Option Bytes} (at_ : logger.owner = .stopping next)
      (absent : logger.writer = .absent) :
      Moves logger { logger with owner := .stopped next }
  | shut {next : Option Bytes} (at_ : logger.owner = .stopping next) :
      Moves logger { logger with running := false, owner := .signalling next }
  | signal {next : Option Bytes} (at_ : logger.owner = .signalling next) :
      Moves logger { logger.notifyWork with owner := .joining next }
  | join {next : Option Bytes} (at_ : logger.owner = .joining next)
      (gone : logger.writer = .exited ∨ logger.writer = .absent) :
      Moves logger { logger with writer := .absent, owner := .closing next }
  | close {next : Option Bytes} (at_ : logger.owner = .closing next) :
      Moves logger
        { (if logger.stream.isOpen then { logger.flushStream with stream := {} } else logger) with
        isOpen := false, queue := [], owner := .stopped next }
  | fail {path : Bytes} (at_ : logger.owner = .opening path)
      (closed : logger.stream.isOpen = false) :
      Moves logger { logger with path, isOpen := false, owner := .outside }
  | begin_ {path : Bytes} (at_ : logger.owner = .opening path) :
      Moves logger { logger with
        path, stream := { logger.stream with isOpen := true }, isOpen := true, running := true,
        writer := .ready, owner := .outside }

theorem advance_moves (logger : FileLogger ι) (who : ι) : Moves logger (logger.advance who) := by
  unfold advance
  split
  · split
    · exact .refuse ‹_›
    · rename_i open_
      exact .accept ‹_› (by simp_all)
  · exact .notify ‹_›
  · split
    · exact .flushed ‹_› ‹_›
    · exact .wait ‹_› ‹_›
  all_goals exact .stay

theorem writerLoop_moves (logger : FileLogger ι) (timestamp : Bytes) :
    Moves logger (logger.writerLoop timestamp) := by
  unfold writerLoop
  split
  · split
    · split
      · exact .sleep ‹_› ‹_› ‹_›
      · exact .exit ‹_› ‹_› (by simp_all)
    · exact .take ‹_› ‹_›
  · unfold writeEntry
    split
    · exact .skip ‹_› (by simp_all)
    · exact .write ‹_› rfl
  · exact .flushStream ‹_›
  all_goals exact .stay

theorem manage_moves (logger : FileLogger ι) (opens : Bool) :
    Moves logger (logger.manage opens) := by
  unfold manage
  split
  · exact .stay
  · split
    · rename_i idle
      exact .idle ‹_› idle.2
    · exact .shut ‹_›
  · exact .signal ‹_›
  · split
    · rename_i absent
      have same : { logger with owner := .closing ‹_› } =
          { logger with writer := .absent, owner := .closing ‹_› } := by rw [← absent]
      rw [same]
      exact .join ‹_› (.inr absent)
    · exact .join ‹_› (.inl ‹_›)
    · exact .stay
  · exact .close ‹_›
  · dsimp only
    split
    · rename_i closed
      have shut : logger.stream.isOpen = false ∧ opens = false := by simpa using closed
      rw [shut.2, Bool.or_false]
      exact .fail ‹_› shut.1
    · rename_i opened
      rw [not_not.mp opened]
      exact .begin_ ‹_›

theorem step_moves (logger : FileLogger ι) (event : Event ι) :
    Moves logger (logger.step event) := by
  cases event with
  | log who entry =>
    simp only [step]
    split
    · exact .log ‹_›
    · exact .stay
  | flush who =>
    simp only [step]
    split
    · exact .flush ‹_›
    · exact .stay
  | step who => exact advance_moves logger who
  | write timestamp => exact writerLoop_moves logger timestamp
  | open_ path =>
    simp only [step]
    split
    · exact .call ‹_›
    · exact .stay
  | stop =>
    simp only [step]
    split
    · exact .call ‹_›
    · exact .stay
  | manage opens => exact manage_moves logger opens
  | wakeWriter => exact .wakeWriter
  | wake who =>
    simp only [step]
    split
    · exact .wake ‹_›
    · exact .stay

variable {logger after : FileLogger ι}

-- Nothing accepted is lost, and the stream is open and empty when the writer needs it to be.
structure Sound (logger : FileLogger ι) : Prop where
  balanced : Ledger.Balanced logger.accepted logger.written logger.writer.hand logger.queue
  buffer : logger.stream.buffer.map Record.entry = logger.writer.unflushed.toList
  gone : logger.writer = .exited ∨ logger.writer = .absent →
    logger.queue = [] ∧ logger.running = false
  streaming : logger.writer ≠ .absent → logger.stream.isOpen = true
  alone : logger.owner.alone → logger.writer = .absent

omit [DecidableEq ι] in
theorem Sound.notifyWork (sound : logger.Sound) : logger.notifyWork.Sound where
  balanced := by
    change Ledger.Balanced logger.accepted logger.written logger.writer.woken.hand logger.queue
    rw [Writer.hand_woken]
    exact sound.balanced
  buffer := sound.buffer.trans (by simp [FileLogger.notifyWork])
  gone gone := sound.gone (by simpa [FileLogger.notifyWork] using gone)
  streaming present := sound.streaming (by simpa [FileLogger.notifyWork] using present)
  alone alone := Writer.woken_eq_absent.mpr (sound.alone alone)

omit [DecidableEq ι] in
theorem Sound.written_flushStream (sound : logger.Sound) :
    logger.flushStream.written = logger.written ++ logger.writer.unflushed.toList := by
  rw [← sound.buffer]
  simp [FileLogger.flushStream, written]

omit [DecidableEq ι] in
theorem Sound.of_busy
    (balanced : Ledger.Balanced logger.accepted logger.written logger.writer.hand logger.queue)
    (buffer : logger.stream.buffer.map Record.entry = logger.writer.unflushed.toList)
    (busy : logger.writer ≠ .exited ∧ logger.writer ≠ .absent)
    (streaming : logger.stream.isOpen = true) (waiting : ¬ logger.owner.alone) : logger.Sound where
  balanced := balanced
  buffer := buffer
  gone gone := (gone.elim busy.1 busy.2).elim
  streaming _ := streaming
  alone alone := absurd alone waiting

theorem Moves.sound (moves : Moves logger after) (sound : logger.Sound) : after.Sound := by
  have balanced := sound.balanced
  have buffer := sound.buffer
  have busy {writer : Writer} (at_ : logger.writer = writer) (present : writer ≠ .absent) :
      logger.stream.isOpen = true ∧ ¬ logger.owner.alone := by
    rw [← at_] at present
    exact ⟨sound.streaming present, mt sound.alone present⟩
  cases moves with
  | stay => exact sound
  | log | refuse | flush | wait | flushed | wake => exact { sound with }
  | @accept who entry at_ running =>
    refine { sound with balanced := balanced.accept entry, gone := fun gone => ?_ }
    -- nothing is accepted any more when the writer is gone
    rw [(sound.gone gone).2] at running
    cases running
  | notify => exact { sound.notifyWork with }
  | sleep ready empty running =>
    obtain ⟨streaming, waiting⟩ := busy ready (by simp)
    rw [ready] at balanced buffer
    exact .of_busy balanced buffer (by simp) streaming waiting
  | exit ready empty stopped =>
    obtain ⟨streaming, waiting⟩ := busy ready (by simp)
    rw [ready] at balanced buffer
    exact {
      balanced, buffer
      gone := fun _ => ⟨empty, stopped⟩
      streaming := fun _ => streaming
      alone := fun alone => absurd alone waiting }
  | @take entry queue ready next =>
    obtain ⟨streaming, waiting⟩ := busy ready (by simp)
    rw [ready, next] at balanced
    rw [ready] at buffer
    split
    all_goals exact .of_busy balanced.take buffer (by simp) streaming waiting
  | skip at_ closed =>
    rw [(busy at_ (by simp)).1] at closed
    cases closed
  | write at_ same =>
    obtain ⟨streaming, waiting⟩ := busy at_ (by simp)
    rw [at_] at balanced buffer
    refine .of_busy balanced ?_ (by simp) streaming waiting
    rw [List.map_append, buffer, List.map_singleton, same]
    rfl
  | flushStream at_ =>
    obtain ⟨streaming, waiting⟩ := busy at_ (by simp)
    have written := sound.written_flushStream
    rw [at_] at balanced written
    refine .of_busy ?_ rfl (by simp) streaming waiting
    change Ledger.Balanced logger.accepted logger.flushStream.written none logger.queue
    rw [written]
    exact balanced.finish
  | wakeWriter => exact sound.notifyWork
  | call free => exact { sound with alone := by simp [Owner.alone] }
  | idle at_ absent => exact { sound with alone := fun _ => absent }
  | shut at_ =>
    exact { sound with
      gone := fun gone => ⟨(sound.gone gone).1, rfl⟩
      alone := by simp [Owner.alone] }
  | signal at_ => exact { sound.notifyWork with alone := by simp [Owner.alone] }
  | join at_ gone =>
    have nothing : logger.writer.hand = none ∧ logger.writer.unflushed = none := by
      rcases gone with exited | absent <;> simp [*, Writer.hand, Writer.unflushed]
    rw [nothing.1] at balanced
    rw [nothing.2] at buffer
    exact { sound with
      balanced, buffer, gone := fun _ => sound.gone gone, streaming := by simp, alone :=
        fun _ => rfl }
  | close at_ =>
    -- the writer has been joined, so the queue and the buffer are empty already
    have absent := sound.alone (by simp [at_, Owner.alone])
    have nothing : logger.writer.unflushed = none := by simp [absent, Writer.unflushed]
    have written := sound.written_flushStream
    rw [nothing, Option.toList_none, List.append_nil] at written
    rw [(sound.gone (.inr absent)).1] at balanced
    split
    · refine {
        balanced := ?_
        buffer := congrArg Option.toList nothing.symm
        gone := fun gone => ⟨rfl, (sound.gone gone).2⟩
        streaming := fun present => absurd absent present
        alone := fun _ => absent }
      change Ledger.Balanced logger.accepted logger.flushStream.written logger.writer.hand []
      rwa [written]
    · exact { sound with
        balanced, gone := fun gone => ⟨rfl, (sound.gone gone).2⟩, alone := fun _ => absent }
  | fail at_ closed => exact { sound with alone := by simp [Owner.alone] }
  | begin_ at_ =>
    have absent := sound.alone (by simp [at_, Owner.alone])
    rw [absent] at balanced buffer
    exact .of_busy balanced buffer (by simp) rfl (by simp [Owner.alone])

end FileLogger

end ModbusChat.Logging
