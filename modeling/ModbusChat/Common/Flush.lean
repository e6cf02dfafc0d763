import ModbusChat.Common.FileLogger

set_option autoImplicit false

namespace ModbusChat.Logging

open BigEndian

namespace FileLogger

variable {ι : Type} [DecidableEq ι] {logger after : FileLogger ι}

-- The thread is in `flush`, and the entries before its call are these.
def InFlush (logger : FileLogger ι) (who : ι) (before : List Entry) : Prop :=
  logger.callers who = .flushing before ∨ logger.callers who = .waiting before

@[simp] theorem move_callers (who other : ι) (caller : Caller) :
    (logger.move who caller).callers other = if other = who then caller
      else logger.callers other := by
  simp only [move, Function.update_apply]

theorem InFlush.of_move {who other : ι} {caller : Caller} {before : List Entry}
    (inside : (logger.move who caller).InFlush other before) :
    logger.InFlush other before ∨ other = who ∧
      (caller = .flushing before ∨ caller = .waiting before) := by
  unfold InFlush at inside
  rw [move_callers] at inside
  by_cases same : other = who
  · rw [if_pos same] at inside
    exact .inr ⟨same, inside⟩
  · rw [if_neg same] at inside
    exact .inl inside

omit [DecidableEq ι] in
theorem InFlush.of_notifyDrained {who : ι} {before : List Entry}
    (inside : logger.notifyDrained.InFlush who before) : logger.InFlush who before := by
  change (logger.callers who).woken = _ ∨ (logger.callers who).woken = _ at inside
  cases here : logger.callers who <;> simp [here, Caller.woken] at inside
  case flushing => exact .inl (inside ▸ here)
  case waiting => exact .inr (inside ▸ here)

-- A thread gets into `flush` by calling it, and takes down what has been accepted until then.
theorem Moves.inFlush (moves : Moves logger after) {who : ι} {before : List Entry}
    (inside : after.InFlush who before) : logger.InFlush who before ∨ before = logger.accepted := by
  cases moves with
  | stay | sleep | skip | write | flushStream | wakeWriter | call | idle | shut | signal | join
  | fail
  | begin_ => exact .inl inside
  | log | refuse | accept | notify | flushed => exact .inl (inside.of_move.resolve_right (by simp))
  | flush free =>
    refine inside.of_move.imp_right fun calls => ?_
    simpa [eq_comm] using calls.2
  | wait at_ =>
    refine .inl (inside.of_move.elim id ?_)
    rintro ⟨rfl, same⟩
    obtain rfl : _ = before := by simpa using same
    exact .inl at_
  | wake at_ =>
    refine .inl (inside.of_move.elim id ?_)
    rintro ⟨rfl, same⟩
    obtain rfl : _ = before := by simpa using same
    exact .inr at_
  | exit => exact .inl (InFlush.of_notifyDrained inside)
  | take =>
    split at inside
    · exact .inl (InFlush.of_notifyDrained inside)
    · exact .inl inside
  | close =>
    split at inside <;> exact .inl inside

theorem Moves.accepted (moves : Moves logger after) : logger.accepted <+: after.accepted := by
  cases moves with
  | accept => exact List.prefix_append _ _
  | take | close => split <;> exact List.prefix_rfl
  | _ => exact List.prefix_rfl

theorem Later.sound (reachable : Later {} logger) : logger.Sound := by
  refine reachable.invariant Sound ?_ fun state event sound _ =>
    (step_moves state event).sound sound
  rintro state rfl
  exact ⟨rfl, rfl, by simp, by simp, by simp [Owner.alone]⟩

theorem Later.inFlush (reachable : Later {} logger) {who : ι} {before : List Entry}
    (inside : logger.InFlush who before) : before <+: logger.accepted := by
  refine reachable.invariant (fun state => ∀ before, state.InFlush who before →
    before <+: state.accepted)
    ?_ ?_ before inside
  · rintro state rfl before (flushing | waiting)
    · cases flushing
    · cases waiting
  · intro state event called _ before inside
    have moves := step_moves state event
    obtain earlier | rfl := moves.inFlush inside
    · exact (called before earlier).trans moves.accepted
    · exact moves.accepted

/--
When a `flush` finds the queue empty and returns, in any interleaving, what had been accepted before
the call is in the file, unless the writer has an entry in its hand and nothing was accepted after
the call. Then this one is missing.
-/
theorem flush_flushed_iff (reachable : Later {} logger) {who : ι} {before : List Entry}
    (calling : logger.callers who = .flushing before) (drained : logger.queue = []) :
    let after := logger.step (.step who)
    after.callers who = .flushed before ∧ before <+: after.written ++ after.writer.hand.toList ∧
      (before <+: after.written ↔ logger.writer.hand = none ∨ before ≠ logger.accepted) := by
  have balanced := reachable.sound.balanced
  rw [drained] at balanced
  have early := reachable.inFlush (.inl calling)
  have returns : logger.step (.step who) = logger.move who (.flushed before) := by
    simp [step, advance, calling, drained]
  rw [returns]
  exact ⟨by simp, balanced.taken ▸ early, balanced.prefix_done_iff early⟩

def flushingLate : FileLogger Unit :=
  [Event.open_ (ascii "a.log"), .manage true, .manage true, .log () (info (ascii "hello")),
    .step (), .step (), .write [], .write (ascii "12:00"), .write [], .flush ()].foldl step {}

theorem flush_flushed_iff_flushingLate :
    let after := flushingLate.step (.step ())
    after.isOpen = true ∧ after.callers () = .flushed [info (ascii "hello")] ∧
      after.file (ascii "a.log") = ascii "12:00 INFO hello\n" ∧ [info (ascii "hello")] <+:
        after.written := by
  have reachable : Later {} flushingLate := Runs.Reachable.foldl (.start rfl) (by decide +kernel)
  have calling : flushingLate.callers () = .flushing [info (ascii "hello")] := by decide +kernel
  obtain ⟨returned, -, flushed⟩ := flush_flushed_iff reachable calling (by decide +kernel)
  exact ⟨by decide +kernel, returned, by decide +kernel, flushed.mpr (.inl (by decide +kernel))⟩

-- The thread calls `flush` when the writer has taken its entry out of the queue and not written it.
def flushedEarly : FileLogger Unit :=
  [Event.open_ (ascii "a.log"), .manage true, .manage true, .log () (info (ascii "hello")),
    .step (), .step (), .write [], .flush (), .step ()].foldl step {}

theorem flushedEarly_unwritten :
    Later {} flushedEarly ∧ flushedEarly.isOpen = true ∧
      flushedEarly.callers () = .flushed [info (ascii "hello")] ∧
      flushedEarly.accepted = [info (ascii "hello")] ∧ flushedEarly.written = [] ∧
      flushedEarly.file (ascii "a.log") = [] :=
  ⟨Runs.Reachable.foldl (.start rfl) (by decide +kernel), by decide +kernel⟩

-- When there is no writer thread, as after `stop`, all that was ever accepted has been flushed.
theorem stopped_written (reachable : Later {} logger) (absent : logger.writer = .absent) :
    logger.written = logger.accepted := by
  have sound := reachable.sound
  have balanced := sound.balanced
  rw [absent, (sound.gone (.inr absent)).1] at balanced
  exact balanced.settled

-- A `flush` waits for the writer only, which needs no wakeup out of nothing: whoever gives it
-- something to do is about to notify it, and nobody waits for an empty queue when it is empty.

-- The states after `logger` where threads only wake up when they are notified.
abbrev Notified (logger : FileLogger ι) : FileLogger ι → Prop :=
  Runs.Reachable (· = logger) (fun _ event => ¬ event.spurious) step

structure Alert (logger : FileLogger ι) : Prop where
  asleep : logger.writer = .asleep → logger.queue = [] ∧ logger.running = true ∨
    (∃ who, logger.callers who = .enqueued) ∨ ∃ next, logger.owner = .signalling next
  waiting {who : ι} {before : List Entry} : logger.callers who = .waiting before → logger.queue ≠ []

theorem Alert.move (alert : logger.Alert) {who : ι} {caller : Caller}
    (quiet : logger.writer = .asleep → logger.callers who ≠ .enqueued)
    (waiting : ∀ before, caller = .waiting before → logger.queue ≠ []) :
    (logger.move who caller).Alert := by
  constructor
  case asleep =>
    intro asleep
    refine (alert.asleep asleep).imp_right (Or.imp_left ?_)
    rintro ⟨other, enqueued⟩
    -- the thread that is about to notify is not the one that moves
    have apart : other ≠ who := by
      rintro rfl
      exact quiet asleep enqueued
    exact ⟨other, by rwa [move_callers, if_neg apart]⟩
  case waiting =>
    intro other before at_
    rw [move_callers] at at_
    split at at_
    · exact waiting before at_
    · exact alert.waiting at_

omit [DecidableEq ι] in
theorem Alert.notifyWork (alert : logger.Alert) : logger.notifyWork.Alert where
  asleep asleep := absurd asleep (Writer.woken_ne_asleep _)
  waiting := alert.waiting

theorem Caller.free_quiet {caller : Caller} (free : caller.free) : caller ≠ .enqueued := by
  rintro rfl
  cases free

theorem Caller.woken_ne_waiting (caller : Caller) (before : List Entry) :
    caller.woken ≠ .waiting before := by
  cases caller <;> simp [Caller.woken]

theorem Moves.alert (moves : Moves logger after) (sound : logger.Sound) (alert : logger.Alert) :
    after.Alert := by
  cases moves with
  | stay => exact alert
  | log free => exact alert.move (fun _ => Caller.free_quiet free) (by simp)
  | refuse at_ => exact alert.move (by simp [at_]) (by simp)
  | @accept who entry at_ running =>
    exact ⟨fun _ => .inr (.inl ⟨who, by simp⟩), fun _ => by simp [FileLogger.move]⟩
  | notify at_ => exact alert.notifyWork.move (by simp [FileLogger.notifyWork]) (by simp)
  | flush free => exact alert.move (fun _ => Caller.free_quiet free) (by simp)
  | wait at_ pending => exact alert.move (by simp [at_]) fun _ _ => pending
  | flushed at_ drained => exact alert.move (by simp [at_]) (by simp)
  | wake at_ => exact alert.move (by simp [at_]) (by simp)
  | sleep ready empty running => exact { alert with asleep := fun _ => .inl ⟨empty, running⟩ }
  | exit ready empty stopped =>
    exact ⟨by simp, fun waiting => absurd waiting (Caller.woken_ne_waiting _ _)⟩
  | @take entry queue ready next =>
    split
    · exact ⟨by simp, fun waiting => absurd waiting (Caller.woken_ne_waiting _ _)⟩
    · exact ⟨by simp, fun _ => ‹_›⟩
  | skip | write | flushStream => exact { alert with asleep := by simp }
  | wakeWriter => exact alert.notifyWork
  | call free =>
    refine { alert with asleep := fun asleep => (alert.asleep asleep).imp_right (Or.imp_right ?_) }
    simp [free]
  | idle at_ absent => exact { alert with asleep := by simp [absent] }
  | shut at_ => exact { alert with asleep := fun _ => .inr (.inr ⟨_, rfl⟩) }
  | signal at_ => exact { alert with asleep := by simp [FileLogger.notifyWork] }
  | join at_ gone => exact { alert with asleep := by simp }
  | close at_ =>
    have absent := sound.alone (by simp [at_, Owner.alone])
    have empty := (sound.gone (.inr absent)).1
    -- the queue is cleared without a notification, but nobody waits: it was empty
    split
    · exact ⟨by simp [FileLogger.flushStream, absent],
        fun waiting => absurd empty (alert.waiting waiting)⟩
    · exact ⟨by simp [absent], fun waiting => absurd empty (alert.waiting waiting)⟩
  | fail at_ closed =>
    have absent := sound.alone (by simp [at_, Owner.alone])
    exact { alert with asleep := by simp [absent] }
  | begin_ at_ => exact { alert with asleep := by simp }

theorem Later.alert (reachable : Later {} logger) : logger.Sound ∧ logger.Alert := by
  refine reachable.invariant (fun state => state.Sound ∧ state.Alert) ?_ ?_
  · rintro state rfl
    exact ⟨Later.sound (.start rfl), by simp, by simp⟩
  · rintro state event ⟨sound, alert⟩ -
    exact ⟨(step_moves state event).sound sound, (step_moves state event).alert sound alert⟩

section Progress

variable {who : ι} {before : List Entry}

omit [DecidableEq ι] in
theorem InFlush.woken (inside : logger.InFlush who before) :
    logger.notifyDrained.InFlush who before := by
  rcases inside with flushing | waiting
  · exact .inl (by simp [FileLogger.notifyDrained, flushing, Caller.woken])
  · exact .inl (by simp [FileLogger.notifyDrained, waiting, Caller.woken])

theorem InFlush.move (inside : logger.InFlush who before) {other : ι} {caller : Caller}
    (apart : who ≠ other) :
    (logger.move other caller).InFlush who before := by
  simpa only [InFlush, move_callers, if_neg apart] using inside

theorem flushes_ready {entry : Entry} (at_ : logger.writer = .buffered entry) :
    Notified logger { logger.flushStream with writer := .ready } := by
  have flushes : logger.step (.write []) = { logger.flushStream with writer := .ready } := by
    simp [step, writerLoop, at_]
  exact .one (by simp [Event.spurious]) flushes

theorem writer_ready (sound : logger.Sound) (alert : logger.Alert) (pending : logger.queue ≠ [])
    (inside : logger.InFlush who before) :
    ∃ later, Notified logger later ∧ later.writer = .ready ∧ later.queue = logger.queue ∧
      later.InFlush who before := by
  have present : ¬ (logger.writer = .exited ∨ logger.writer = .absent) := fun gone =>
    pending (sound.gone gone).1
  cases at_ : logger.writer with
  | absent => exact absurd (.inr at_) present
  | exited => exact absurd (.inl at_) present
  | ready => exact ⟨logger, .start rfl, at_, rfl, inside⟩
  | asleep =>
    rcases alert.asleep at_ with ⟨empty, -⟩ | ⟨other, enqueued⟩ | ⟨next, signalling⟩
    · exact absurd empty pending
    · have apart : who ≠ other := by
        rintro rfl
        simp [InFlush, enqueued] at inside
      have notifies : logger.step (.step other) = logger.notifyWork.move other .outside := by
        simp [step, advance, enqueued]
      refine ⟨_, .one (by simp [Event.spurious]) notifies, ?_, rfl, InFlush.move inside apart⟩
      simp [FileLogger.move, FileLogger.notifyWork, at_, Writer.woken]
    · have notifies :
        logger.step (.manage true) = { logger.notifyWork with owner := .joining next } := by
        simp [step, manage, signalling]
      refine ⟨_, .one (by simp [Event.spurious]) notifies, ?_, rfl, inside⟩
      simp [FileLogger.notifyWork, at_, Writer.woken]
  | holding entry =>
    have streaming := sound.streaming (by simp [at_])
    have writes : logger.step (.write []) =
        { logger with
          stream :=
            { logger.stream with buffer := logger.stream.buffer ++ [⟨logger.path, [], entry⟩] }
          writer := .buffered entry } := by
      simp [step, writerLoop, at_, writeEntry, streaming]
    have written : Notified logger _ := .one (by simp [Event.spurious]) writes
    exact ⟨_, written.trans (flushes_ready rfl), rfl, rfl, inside⟩
  | buffered entry => exact ⟨_, flushes_ready at_, rfl, rfl, inside⟩

theorem writer_takes (sound : logger.Sound) (alert : logger.Alert) {entry : Entry}
    {queue : List Entry}
    (pending : logger.queue = entry :: queue) (inside : logger.InFlush who before) :
    ∃ later, Notified logger later ∧ later.queue = queue ∧ later.InFlush who before := by
  obtain ⟨ready, reached, at_, queued, inside⟩ :=
    writer_ready sound alert (by simp [pending]) inside
  have takes : ready.step (.write []) =
      { (if queue = [] then ready.notifyDrained else ready) with
        queue, writer := .holding entry } := by
    simp [step, writerLoop, at_, queued.trans pending]
  refine ⟨_, reached.trans (.one (by simp [Event.spurious]) takes), rfl, ?_⟩
  split
  · exact inside.woken
  · exact inside

-- Wherever the threads are, a `flush` that has been called can return.
theorem flush_returns (reachable : Later {} logger) (inside : logger.InFlush who before) :
    ∃ later, Notified logger later ∧ later.callers who = .flushed before := by
  -- the induction is on the entries in front of the call and those that came after it
  induction queued : logger.queue generalizing logger with
  | nil =>
    have flushing : logger.callers who = .flushing before :=
      inside.resolve_right fun waiting => reachable.alert.2.waiting waiting queued
    have returns : logger.step (.step who) = logger.move who (.flushed before) := by
      simp [step, advance, flushing, queued]
    exact ⟨_, .one (by simp [Event.spurious]) returns, by simp⟩
  | cons entry queue ih =>
    obtain ⟨next, taken, left, inside⟩ :=
      writer_takes reachable.alert.1 reachable.alert.2 queued inside
    obtain ⟨later, reached, returned⟩ := ih
      (reachable.trans (taken.weaken fun _ _ _ => trivial)) inside left
    exact ⟨later, taken.trans reached, returned⟩

end Progress

end FileLogger

end ModbusChat.Logging
