import ModbusChat.Server.AdminCommandParser
import ModbusChat.Server.Bans

set_option autoImplicit false

namespace ModbusChat.Server

open BigEndian Effects Wire

-- `ServerViewModel::run` cut into the steps between which the kernel or another thread can act: one
-- for the admin queue, one for `poll` and one for each entry of the two passes over `pollfds`.

def POLLIN : UInt16 := 0x001
def POLLERR : UInt16 := 0x008
def POLLHUP : UInt16 := 0x010
def POLLNVAL : UInt16 := 0x020

structure PollFd where
  fd : Fd
  revents : UInt16 := 0
  deriving DecidableEq, Repr

def PollFd.failed (entry : PollFd) : Bool :=
  entry.revents &&& (POLLERR ||| POLLHUP ||| POLLNVAL) ≠ 0

def PollFd.readable (entry : PollFd) : Bool := entry.revents &&& POLLIN ≠ 0

-- The entry is to be erased at the end of the iteration.
def PollFd.mark (entry : PollFd) : PollFd := { entry with fd := -1 }

def processAdminQueue : List Bytes → ServerM Unit
  | [] => return
  | line :: lines => do
      match parseAdminCommand line with
      | none => display (.adminMessage adminHelpText)
      | some ids => banIds ids
      processAdminQueue lines

/--
Where the loop is. During the two passes `pollfds` is the entries visited followed by those
pending; new entries are pushed at the end, so they are still visited.
-/
inductive Phase where
  | head (pollfds : List PollFd)
  | polling (pollfds : List PollFd)
  | hangUps (visited pending : List PollFd)
  | readable (visited pending : List PollFd)
  | left
  | crashed (failure : Failure)
  deriving DecidableEq, Repr

structure EventLoop where
  server : ServerViewModel := {}
  listener : Fd
  phase : Phase

inductive Poll where
  | interrupted
  | failed
  | timedOut
  | ready (revents : Nat → UInt16)

-- `visit` carries what `accept` returns and what `read_frame` returns, of which it uses one.
inductive LoopEvent where
  | enter (lines : List Bytes)
  | poll (result : Poll)
  | visit (accepted : Fd) (error : String) (incoming : Option Frame)
  | requestStop

-- The entries that `accept_client` pushes.
def watches (output : List Effect) : List PollFd :=
  output.filterMap fun
    | .watch fd => some { fd }
    | _ => none

namespace EventLoop

-- A call into the server; an exception that it does not catch leaves `run`.
def call (loop : EventLoop) (action : ServerM Unit) (next : ServerViewModel → List Effect → Phase) :
    EventLoop :=
  let outcome := action.run loop.server
  { loop with
    server := outcome.state
    phase := match outcome.result with
      | .ok () => next outcome.state outcome.output
      | .error failure => .crashed failure }

def leave (loop : EventLoop) : EventLoop := loop.call disconnectAllClients fun _ _ => .left

def hangUp (loop : EventLoop) (visited : List PollFd) (entry : PollFd) (pending : List PollFd) :
    EventLoop :=
  if entry.failed then
    if loop.server.running then
      loop.call (removeClient entry.fd) fun _ _ => .hangUps (visited ++ [entry.mark]) pending
    else { loop with phase := .hangUps (visited ++ [entry.mark]) pending }
  else { loop with phase := .hangUps (visited ++ [entry]) pending }

def serve (loop : EventLoop) (visited : List PollFd) (entry : PollFd) (pending : List PollFd)
    (accepted : Fd) (error : String) (incoming : Option Frame) : EventLoop :=
  if entry.fd < 0 ∨ ¬ entry.readable then
    { loop with phase := .readable (visited ++ [entry]) pending }
  else if entry.fd = loop.listener then
    loop.call (acceptClient accepted error) fun _ output =>
      .readable (visited ++ [entry]) (pending ++ watches output)
  else
    loop.call (handleClientData entry.fd incoming) fun server _ =>
      let entry := if (server.registry.findByFd entry.fd).isNone then entry.mark else entry
      .readable (visited ++ [entry]) pending

def step (loop : EventLoop) : LoopEvent → EventLoop
  | .requestStop =>
      { loop with server := Server.step loop.server .requestStop, listener := -1 }
  | .enter lines =>
      match loop.phase with
      | .head pollfds =>
          if loop.server.running then loop.call (processAdminQueue lines) fun _ _ =>
            .polling pollfds
          else loop.leave
      | _ => loop
  | .poll result =>
      match loop.phase, result with
      | .polling pollfds, .interrupted | .polling pollfds, .timedOut =>
          { loop with phase := .head pollfds }
      | .polling _, .failed =>
          if loop.server.running then { loop with phase := .crashed (.runtimeError "poll failed") }
          else loop.leave
      | .polling pollfds, .ready revents =>
          let polled := pollfds.mapIdx fun i entry => { entry with revents := revents i }
          -- the first pass starts behind the listening socket
          { loop with phase := .hangUps (polled.take 1) (polled.drop 1) }
      | _, _ => loop
  | .visit accepted error incoming =>
      match loop.phase with
      | .hangUps visited (entry :: pending) => loop.hangUp visited entry pending
      | .hangUps visited [] =>
          if loop.server.running then { loop with phase := .readable [] visited } else loop.leave
      | .readable visited (entry :: pending) =>
          loop.serve visited entry pending accepted error incoming
      | .readable visited [] =>
        { loop with phase := .head (visited.filter fun entry => ¬ entry.fd < 0) }
      | _ => loop

def Initial (loop : EventLoop) : Prop :=
  loop.server = {} ∧ ¬ loop.listener < 0 ∧ loop.phase = .head [{ fd := loop.listener }]

/--
The kernel never returns a descriptor that is still open, as those of clients and the listener are.
-/
def Allowed (loop : EventLoop) : LoopEvent → Prop
  | .visit accepted _ _ =>
      accepted ∉ loop.server.registry.clientsByFd ∧ (accepted < 0 ∨ accepted ≠ loop.listener)
  | _ => True

instance Allowed.decidable (loop : EventLoop) : (event : LoopEvent) → Decidable (loop.Allowed event)
  | .visit _ _ _ => inferInstanceAs (Decidable (_ ∧ _))
  | .enter _ | .poll _ | .requestStop => .isTrue trivial

end EventLoop

def watched (entries : List PollFd) : List Fd := (entries.map PollFd.fd).filter fun fd => ¬ fd < 0

@[simp] theorem watched_append (first second : List PollFd) :
    watched (first ++ second) = watched first ++ watched second := by
  simp [watched]

theorem watched_cons (entry : PollFd) (entries : List PollFd) :
    watched (entry :: entries) = if entry.fd < 0 then watched entries
      else entry.fd :: watched entries := by
  simp only [watched, List.map_cons, List.filter_cons]
  split_ifs <;> simp_all

-- The listening socket comes first, and the other entries stand for the clients, each once.
def Polls (listener : Fd) (registry : ClientRegistry) (pollfds : List PollFd) : Prop :=
  ∃ first entries, pollfds = first :: entries ∧ first.fd = listener ∧ (watched entries).Nodup ∧
    ∀ fd, fd ∈ watched entries ↔ fd ∈ registry.allFds

section Polling

variable {listener : Fd} {registry after : ClientRegistry} {visited pending : List PollFd}
  {entry : PollFd}

theorem Polls.congr {pollfds others : List PollFd} (polls : Polls listener registry pollfds)
    (same : others.map PollFd.fd = pollfds.map PollFd.fd)
    (clients : ∀ fd, fd ∈ after.allFds ↔ fd ∈ registry.allFds) : Polls listener after others := by
  obtain ⟨first, entries, rfl, here, distinct, members⟩ := polls
  cases others with
  | nil => simp at same
  | cons other others =>
    obtain ⟨head, tail⟩ := List.cons.inj (by simpa using same)
    have kept : watched others = watched entries := by rw [watched, tail, watched]
    exact ⟨other, others, rfl, head.trans here, kept ▸ distinct, fun fd => by
      rw [kept, members, clients]⟩

theorem Polls.client (polls : Polls listener registry (visited ++ entry :: pending))
    (behind : visited ≠ [] ∨ entry.fd ≠ listener) (open_ : ¬ entry.fd < 0) :
    entry.fd ∈ registry.allFds := by
  obtain ⟨first, entries, split, here, -, members⟩ := polls
  cases visited with
  | nil =>
    obtain ⟨rfl, rfl⟩ := List.cons.inj split
    exact absurd here (behind.resolve_left fun nonempty => nonempty rfl)
  | cons other visited =>
    rw [List.cons_append] at split
    obtain ⟨rfl, rfl⟩ := List.cons.inj split
    rw [← members, watched_append, watched_cons, if_neg open_]
    simp

theorem Polls.marked (polls : Polls listener registry (visited ++ entry :: pending))
    (behind : visited ≠ [] ∨ entry.fd ≠ listener) (open_ : ¬ entry.fd < 0)
    (clients : ∀ fd, fd ∈ after.allFds ↔ fd ∈ registry.allFds ∧ fd ≠ entry.fd) :
    Polls listener after (visited ++ [entry.mark] ++ pending) := by
  obtain ⟨first, entries, split, here, distinct, members⟩ := polls
  cases visited with
  | nil =>
    obtain ⟨rfl, rfl⟩ := List.cons.inj split
    exact absurd here (behind.resolve_left fun nonempty => nonempty rfl)
  | cons other visited =>
    rw [List.cons_append] at split
    obtain ⟨rfl, rfl⟩ := List.cons.inj split
    have erased : watched [entry.mark] = [] := rfl
    rw [watched_append, watched_cons, if_neg open_, List.nodup_middle, List.nodup_cons] at distinct
    refine ⟨other, visited ++ [entry.mark] ++ pending, by simp, here, ?_, fun fd => ?_⟩
    · rw [watched_append, watched_append, erased, List.append_nil]
      exact distinct.2
    · rw [clients, ← members, watched_append, watched_append, erased, List.append_nil,
        watched_append, watched_cons, if_neg open_]
      simp only [List.mem_append, List.mem_cons]
      constructor
      · intro member
        refine ⟨by tauto, ?_⟩
        rintro rfl
        exact distinct.1 (List.mem_append.mpr member)
      · tauto

theorem Polls.pushed (polls : Polls listener registry (visited ++ entry :: pending)) {fd : Fd}
    (vacant : fd ∉ registry.allFds) (open_ : ¬ fd < 0)
    (clients : ∀ other, other ∈ after.allFds ↔ other = fd ∨ other ∈ registry.allFds) :
    Polls listener after (visited ++ [entry] ++ (pending ++ [{ fd := fd }])) := by
  obtain ⟨first, entries, split, here, distinct, members⟩ := polls
  have added : watched [{ fd := fd }] = [fd] := by
    rw [watched_cons, if_neg open_]
    rfl
  refine ⟨first, entries ++ [{ fd := fd }], ?_, here, ?_, fun other => ?_⟩
  · rw [← List.cons_append, ← split]
    simp
  · rw [watched_append, added, List.nodup_append]
    refine ⟨distinct, by simp, fun other member last same => ?_⟩
    rw [List.mem_singleton.mp same]
    rintro rfl
    exact vacant ((members other).mp member)
  · rw [watched_append, added, clients, List.mem_append, members, List.mem_singleton, or_comm]

end Polling

def Phase.Tracks (listener : Fd) (registry : ClientRegistry) : Phase → Prop
  | .head pollfds | .polling pollfds =>
      Polls listener registry pollfds ∧ ∀ entry ∈ pollfds, ¬ entry.fd < 0
  | .hangUps visited pending =>
      Polls listener registry (visited ++ pending) ∧ visited ≠ [] ∧ ∀ entry ∈ pending,
        ¬ entry.fd < 0
  | .readable visited pending => Polls listener registry (visited ++ pending)
  | .left | .crashed _ => True

theorem watches_accept {fd : Fd} (accepted : ¬ fd < 0) (server : ServerViewModel) (error : String) :
    watches ((acceptClient fd error).run server).output = [{ fd := fd }] := by
  rw [acceptClient_run accepted]
  simp [watches, List.filterMap_map]

theorem mem_allFds_data {server : ServerViewModel} {fd : Fd} (incoming : Option Frame)
    (other : Fd) :
    other ∈ (step server (.data fd incoming)).registry.allFds ↔
      other ∈ server.registry.allFds ∧
        (other = fd → (step server (.data fd incoming)).registry.findByFd fd ≠ none) := by
  have here : (step server (.data fd incoming)).registry.findByFd fd ≠ none ↔
      fd ∈ (step server (.data fd incoming)).registry.allFds := by
    rw [mem_allFds, Option.ne_none_iff_exists']
  rw [here]
  rcases step_data server fd incoming with same | dropped | ⟨nickname, -, -, renamed⟩
  · rw [same]
    constructor
    · exact fun member => ⟨member, fun at_ => at_ ▸ member⟩
    · exact fun member => member.1
  · rw [dropped, mem_allFds_drop, mem_allFds_drop]
    tauto
  · rw [renamed, mem_allFds_rename, mem_allFds_rename]
    constructor
    · exact fun member => ⟨member, fun at_ => at_ ▸ member⟩
    · exact fun member => member.1

theorem admissible_bans (lists : List (List UInt32)) (server : ServerViewModel) :
    Runs.Admissible Served step server (lists.map Event.ban) := by
  induction lists generalizing server with
  | nil => trivial
  | cons ids lists ih => exact ⟨trivial, ih _⟩

theorem processAdminQueue_state (lines : List Bytes) (server : ServerViewModel) :
    ∃ lists : List (List UInt32),
      ((processAdminQueue lines).run server).state = (lists.map Event.ban).foldl step server := by
  induction lines generalizing server with
  | nil => exact ⟨[], rfl⟩
  | cons line lines ih =>
    simp only [processAdminQueue]
    cases parseAdminCommand line with
    | none => exact ih server
    | some ids =>
      have first : ((banIds ids).run server).state = step server (.ban ids) := rfl
      simp only [Action.run_bind]
      generalize (banIds ids).run server = outcome at first
      obtain ⟨after, output, failure | value⟩ := outcome
      · exact ⟨[ids], first⟩
      · obtain ⟨lists, rest⟩ := ih after
        refine ⟨ids :: lists, ?_⟩
        rw [List.map_cons, List.foldl_cons, ← first]
        exact rest

namespace EventLoop

-- What holds of the loop as long as the server runs; in particular it only makes the calls of
-- `Served`.
structure Inv (loop : EventLoop) : Prop where
  listening : ¬ loop.listener < 0
  apart : loop.listener ∉ loop.server.registry.allFds
  served : Runs.Reachable Server.Initial Served Server.step loop.server
  tracks : loop.phase.Tracks loop.listener loop.server.registry

section Calls

variable {loop : EventLoop}

theorem Inv.call (inv : loop.Inv) {event : Event} (served : Served loop.server event)
    {next : ServerViewModel → List Effect → Phase}
    (apart : loop.listener ∉ (Server.step loop.server event).registry.allFds)
    (tracks : (next (Server.step loop.server event) (event.action.run loop.server).output).Tracks
      loop.listener (Server.step loop.server event).registry) :
    (loop.call event.action next).Inv where
  listening := inv.listening
  apart := apart
  served := inv.served.next served
  tracks := by
    simp only [EventLoop.call]
    cases (event.action.run loop.server).result with
    | error failure => trivial
    | ok value => exact tracks

theorem Inv.move (inv : loop.Inv) {phase : Phase}
    (tracks : phase.Tracks loop.listener loop.server.registry) :
    ({ loop with phase } : EventLoop).Inv :=
  ⟨inv.listening, inv.apart, inv.served, tracks⟩

theorem Inv.enter (inv : loop.Inv) {pollfds : List PollFd} (phase : loop.phase = .head pollfds)
    (lines : List Bytes) :
    (loop.call (processAdminQueue lines) fun _ _ => .polling pollfds).Inv := by
  obtain ⟨lists, state⟩ := processAdminQueue_state lines loop.server
  have registry := (foldl_ban lists loop.server).1
  have tracks := inv.tracks
  rw [phase] at tracks
  rw [← state] at registry
  refine ⟨inv.listening, ?_, ?_, ?_⟩
  · simp only [EventLoop.call, registry]
    exact inv.apart
  · simp only [EventLoop.call, state]
    exact inv.served.foldl (admissible_bans lists loop.server)
  · simp only [EventLoop.call, registry]
    cases ((processAdminQueue lines).run loop.server).result with
    | error failure => trivial
    | ok value => exact tracks

theorem Inv.ready (inv : loop.Inv) {pollfds : List PollFd} (phase : loop.phase = .polling pollfds)
    (revents : Nat → UInt16) :
    (loop.step (.poll (.ready revents))).Inv := by
  have tracks := inv.tracks
  rw [phase] at tracks
  obtain ⟨polls, open_⟩ := tracks
  simp only [step, phase]
  refine inv.move ?_
  generalize polled :
    (pollfds.mapIdx fun i entry => ({ entry with revents := revents i } : PollFd)) = entries
  have same : entries.map PollFd.fd = pollfds.map PollFd.fd := by
    rw [← polled]
    apply List.ext_getElem <;> simp
  have polls := polls.congr same fun _ => Iff.rfl
  refine ⟨by rwa [List.take_append_drop], ?_, fun entry member => ?_⟩
  · obtain ⟨first, rest, rfl, -⟩ := polls
    simp
  · have fd : entry.fd ∈ entries.map PollFd.fd :=
      List.mem_map.mpr ⟨entry, List.mem_of_mem_drop member, rfl⟩
    rw [same] at fd
    obtain ⟨old, here, fd⟩ := List.mem_map.mp fd
    exact fd ▸ open_ old here

theorem Inv.hangUp (inv : loop.Inv) (running : loop.server.running = true)
    {visited pending : List PollFd}
    {entry : PollFd} (phase : loop.phase = .hangUps visited (entry :: pending)) :
    (loop.hangUp visited entry pending).Inv := by
  have tracks := inv.tracks
  rw [phase] at tracks
  obtain ⟨polls, nonempty, open_⟩ := tracks
  obtain ⟨here, open_⟩ := List.forall_mem_cons.mp open_
  simp only [EventLoop.hangUp, running, if_true]
  split_ifs
  · have client := polls.client (.inl nonempty) here
    have served : Served loop.server (.remove entry.fd) := client
    refine inv.call served ?_ ?_
    · rw [step_remove, mem_allFds_drop]
      exact fun still => inv.apart still.1
    · refine ⟨polls.marked (.inl nonempty) here fun fd => ?_, by simp, open_⟩
      rw [step_remove, mem_allFds_drop]
  · exact inv.move ⟨by simpa using polls, by simp, open_⟩

theorem Inv.serve (inv : loop.Inv) {visited pending : List PollFd} {entry : PollFd}
    (phase : loop.phase = .readable visited (entry :: pending)) {accepted : Fd} {error : String}
    {incoming : Option Frame} (may : loop.Allowed (.visit accepted error incoming)) :
    (loop.serve visited entry pending accepted error incoming).Inv := by
  have tracks := inv.tracks
  rw [phase] at tracks
  have polls : Polls loop.listener loop.server.registry (visited ++ entry :: pending) := tracks
  have keeps : Polls loop.listener loop.server.registry (visited ++ [entry] ++ pending) := by
    simpa using polls
  simp only [EventLoop.serve]
  split_ifs with skipped listening
  · exact inv.move keeps
  · -- the listening socket: a new client gets an entry of its own at the end
    have served : Served loop.server (.accept accepted error) := may.1
    refine inv.call served ?_ ?_
    · rw [step_accept]
      split_ifs with refused
      · exact inv.apart
      · rw [mem_allFds_enroll, not_or]
        exact ⟨(may.2.resolve_left refused).symm, inv.apart⟩
    · by_cases refused : accepted < 0
      · have none : watches ((Event.accept accepted error).action.run loop.server).output = [] := by
          simp [Event.action, acceptClient, refused, watches, display]
        rw [none, step_accept, if_pos refused, List.append_nil]
        exact keeps
      · have one : watches ((Event.accept accepted error).action.run loop.server).output =
            [{ fd := accepted }] := watches_accept refused loop.server error
        rw [one, step_accept, if_neg refused]
        exact polls.pushed (fun present => may.1 (Table.mem_iff_lookup.mpr (mem_allFds.mp present)))
          refused fun other => mem_allFds_enroll
  · -- a client: its entry is marked if the call has removed it
    have open_ : ¬ entry.fd < 0 := fun closed => skipped (.inl closed)
    have client := polls.client (.inr listening) open_
    have clients := fun other => @mem_allFds_data loop.server entry.fd incoming other
    have served : Served loop.server (.data entry.fd incoming) := client
    refine inv.call served ?_ ?_
    · rw [clients]
      exact fun still => inv.apart still.1
    · by_cases gone :
        (Server.step loop.server (.data entry.fd incoming)).registry.findByFd entry.fd = none
      · simp only [gone, Option.isNone_none, if_true]
        refine polls.marked (.inr listening) open_ fun fd => ?_
        rw [clients, gone]
        simp
      · have kept : ((Server.step loop.server (.data entry.fd incoming)).registry.findByFd
            entry.fd).isNone = false := by
          rwa [Option.isNone_eq_false_iff, Option.isSome_iff_ne_none]
        simp only [kept, Bool.false_eq_true, if_false]
        refine keeps.congr rfl fun fd => ?_
        rw [clients]
        simp [gone]

theorem Inv.visit (inv : loop.Inv) (running : loop.server.running = true) {accepted : Fd}
    {error : String} {incoming : Option Frame}
    (may : loop.Allowed (.visit accepted error incoming)) :
    (loop.step (.visit accepted error incoming)).Inv := by
  have tracks := inv.tracks
  cases phase : loop.phase with
  | head | polling | left | crashed =>
    simp only [EventLoop.step, phase]
    exact inv
  | hangUps visited pending =>
    cases pending with
    | cons entry pending =>
      simp only [EventLoop.step, phase]
      exact inv.hangUp running phase
    | nil =>
      simp only [EventLoop.step, phase, running, if_true]
      rw [phase] at tracks
      refine inv.move ?_
      simpa [Phase.Tracks] using tracks.1
  | readable visited pending =>
    cases pending with
    | cons entry pending =>
      simp only [EventLoop.step, phase]
      exact inv.serve phase may
    | nil =>
      simp only [EventLoop.step, phase]
      rw [phase] at tracks
      obtain ⟨first, entries, split, here, distinct, members⟩ := tracks
      have open_ : ¬ first.fd < 0 := here ▸ inv.listening
      have all : visited = first :: entries := by simpa using split
      refine inv.move ⟨?_, fun entry member => by simpa using (List.mem_filter.mp member).2⟩
      rw [all, List.filter_cons_of_pos (by simpa using open_)]
      have kept : watched (entries.filter fun entry => ¬ entry.fd < 0) = watched entries := by
        simp [watched, List.filter_map, List.filter_filter, Function.comp_def]
      exact ⟨first, _, rfl, here, kept ▸ distinct, fun fd => by rw [kept, members]⟩

theorem Inv.next (inv : loop.Inv) (running : loop.server.running = true) {event : LoopEvent}
    (may : loop.Allowed event) (still : (loop.step event).server.running = true) :
    (loop.step event).Inv := by
  cases event with
  | requestStop => cases still
  | enter lines =>
    cases phase : loop.phase with
    | head pollfds =>
      simp only [EventLoop.step, phase, running, if_true]
      exact inv.enter phase lines
    | _ =>
      simp only [EventLoop.step, phase]
      exact inv
  | poll result =>
    cases phase : loop.phase with
    | polling pollfds =>
      have tracks := inv.tracks
      rw [phase] at tracks
      cases result with
      | interrupted | timedOut =>
        simp only [EventLoop.step, phase]
        exact inv.move tracks
      | failed =>
        simp only [EventLoop.step, phase, running, if_true]
        exact inv.move trivial
      | ready revents => exact inv.ready phase revents
    | _ =>
      simp only [EventLoop.step, phase]
      exact inv
  | visit accepted error incoming => exact inv.visit running may

theorem step_server (loop : EventLoop) (event : LoopEvent) :
    ∃ events : List Event, (loop.step event).server = events.foldl Server.step loop.server := by
  have call (event : Event) (next : ServerViewModel → List Effect → Phase) :
      ∃ events : List Event, (loop.call event.action next).server =
        events.foldl Server.step loop.server :=
    ⟨[event], rfl⟩
  cases event with
  | requestStop => exact ⟨[.requestStop], rfl⟩
  | enter lines =>
    simp only [EventLoop.step]
    split
    · split_ifs
      · obtain ⟨lists, state⟩ := processAdminQueue_state lines loop.server
        exact ⟨_, state⟩
      · exact call .disconnectAll _
    · exact ⟨[], rfl⟩
  | poll result =>
    simp only [EventLoop.step]
    split
    · exact ⟨[], rfl⟩
    · exact ⟨[], rfl⟩
    · split_ifs
      · exact ⟨[], rfl⟩
      · exact call .disconnectAll _
    · exact ⟨[], rfl⟩
    · exact ⟨[], rfl⟩
  | visit accepted error incoming =>
    simp only [EventLoop.step]
    split
    · simp only [EventLoop.hangUp]
      split_ifs
      · exact call (.remove _) _
      · exact ⟨[], rfl⟩
      · exact ⟨[], rfl⟩
    · split_ifs
      · exact ⟨[], rfl⟩
      · exact call .disconnectAll _
    · simp only [EventLoop.serve]
      split_ifs
      · exact ⟨[], rfl⟩
      · exact call (.accept _ _) _
      · exact call (.data _ _) _
    · exact ⟨[], rfl⟩
    · exact ⟨[], rfl⟩

theorem running_before {event : LoopEvent} (still : (loop.step event).server.running = true) :
    loop.server.running = true := by
  obtain ⟨events, state⟩ := step_server loop event
  rw [state] at still
  generalize loop.server = server at still ⊢
  clear state
  induction events generalizing server with
  | nil => exact still
  | cons event events ih =>
    have once : (Server.step server event).running = true := ih _ still
    by_cases stops : event = .requestStop
    · subst stops
      cases once
    · rwa [step_running stops] at once

theorem reachable_inv
    (reachable : Runs.Reachable EventLoop.Initial EventLoop.Allowed EventLoop.step loop)
    (running : loop.server.running = true) : loop.Inv := by
  refine reachable.invariant (fun loop => loop.server.running = true → loop.Inv) ?_ ?_ running
  · rintro loop ⟨empty, open_, phase⟩ -
    have nobody : loop.server.registry.allFds = [] := by
      rw [empty]
      rfl
    refine ⟨open_, by simp [nobody], .start empty, ?_⟩
    rw [phase]
    refine ⟨⟨_, [], rfl, rfl, by simp [watched], fun fd => by simp [watched, nobody]⟩, ?_⟩
    simpa using open_
  · intro loop event inv may still
    have running := running_before still
    exact (inv running).next running may still

end Calls

end EventLoop

/--
At the head of every iteration the loop polls the listening socket and just the clients, each once.
-/
theorem polls_clients {loop : EventLoop} {pollfds : List PollFd}
    (reachable : Runs.Reachable EventLoop.Initial EventLoop.Allowed EventLoop.step loop)
    (atHead : loop.phase = .head pollfds) (running : loop.server.running = true) :
    ∃ clients, pollfds.map PollFd.fd = loop.listener :: clients ∧
      clients.Perm loop.server.registry.allFds ∧ clients.Nodup ∧ loop.listener ∉ clients := by
  have inv := EventLoop.reachable_inv reachable running
  have tracks := inv.tracks
  rw [atHead] at tracks
  obtain ⟨⟨first, entries, rfl, here, distinct, members⟩, open_⟩ := tracks
  have all : watched entries = entries.map PollFd.fd := by
    refine List.filter_eq_self.mpr fun fd member => ?_
    obtain ⟨entry, inside, rfl⟩ := List.mem_map.mp member
    simpa using open_ entry (List.mem_cons_of_mem _ inside)
  rw [all] at distinct members
  refine ⟨entries.map PollFd.fd, by rw [List.map_cons, here], ?_, distinct, fun member => ?_⟩
  · exact (List.perm_ext_iff_of_nodup distinct loop.server.registry.clientsByFd.keys_nodup).mpr
      members
  · exact inv.apart ((members _).mp member)

-- A client hangs up, and in the same iteration its descriptor goes to a new client.
def reusedDescriptor : EventLoop :=
  let quiet := LoopEvent.visit (-1) "" none
  [.enter [], .poll (.ready fun _ => POLLIN), quiet, .visit 4 "" none, quiet, quiet,
    .enter [ascii "ban:9"], .poll (.ready fun i => if i = 0 then POLLIN else POLLIN ||| POLLHUP),
    quiet, quiet, .visit 4 "" none, quiet, quiet, quiet].foldl EventLoop.step
      { listener := 3, phase := .head [{ fd := 3 }] }

theorem polls_clients_reusedDescriptor :
    ∃ clients, [(3 : Fd), 4] = reusedDescriptor.listener :: clients ∧
      clients.Perm reusedDescriptor.server.registry.allFds ∧ clients.Nodup ∧
      reusedDescriptor.listener ∉ clients := by
  have reachable :
      Runs.Reachable EventLoop.Initial EventLoop.Allowed EventLoop.step reusedDescriptor :=
    Runs.Reachable.foldl (.start ⟨rfl, by decide, rfl⟩) (by decide +kernel)
  have atHead : reusedDescriptor.phase = .head [{ fd := 3, revents := POLLIN }, { fd := 4 }] := by
    decide +kernel
  exact polls_clients reachable atHead (by decide +kernel)

end ModbusChat.Server
