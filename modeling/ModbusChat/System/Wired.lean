import ModbusChat.System.Wild
import ModbusChat.Wire.Pieces

set_option autoImplicit false

-- What a world takes for queues of whole messages are two streams of bytes per connection. A
-- message is handed to the kernel in as many calls of `::send` as it takes and gathered by as many
-- calls of `read`, and the kernel holds no more than `capacity` bytes of a stream. The server is
-- one thread: until a message is read or written it does nothing else. Of the two threads of a
-- client one writes at a time.

namespace ModbusChat.System

open BigEndian Effects Wire Client
open Server (Fd ServerViewModel)

-- Who writes at a client: `run` before it enters its loops, or one of them.
inductive Writer where
  | start
  | loop (thread : Thread)
  deriving DecidableEq, Repr

structure Terminal where
  client : ClientViewModel
  started : Bool := false
  typing : List Packet := []
  replying : List Packet := []
  -- Who is in `write_exact`, and what is left to hand over.
  writing : Option (Writer × Bytes) := none
  up : Pipe := {}
  down : Pipe := {}
  -- The process has ended, and its socket is closed.
  gone : Bool := false

structure Wired where
  server : ServerViewModel := {}
  -- The connection that the server is in `receive` on.
  reading : Option Fd := none
  -- What the server is in `send` with, in order.
  sending : List (Fd × Bytes) := []
  terminals : Table Fd Terminal := ∅

inductive WiredEvent where
  | join (fd : Fd) (nickname : Bytes) (saved : Option PeerKeyStore) (random : Nat → UInt8)
  | leave (fd : Fd)
  | hangUp (fd : Fd)
  | ban (ids : List UInt32)
  | poll (fd : Fd)
  | serverRead (count : Nat)
  | serverReceive
  | serverSend (count : Nat)
  | command (fd : Fd) (command : InputCommand)
  | turn (fd : Fd) (thread : Thread)
  | clientSend (fd : Fd) (count : Nat)
  | clientRead (fd : Fd) (count : Nat)
  | clientReceive (fd : Fd)

def frameBytes (packets : List Packet) : Bytes :=
  (packets.map fun packet => encode packet.frame).flatten

def Terminal.left (terminal : Terminal) : Bytes := terminal.writing.elim [] Prod.snd

-- `write_exact` begins, and is left at once when there is nothing to write.
def Terminal.write (terminal : Terminal) (writer : Writer) (bytes : Bytes) : Terminal :=
  { terminal with writing := if bytes = [] then none else some (writer, bytes) }

-- A `::send` that the kernel takes `count` bytes of, or all if there are fewer.
def Terminal.send (terminal : Terminal) (count : Nat) : Terminal :=
  match terminal.writing with
  | none => terminal
  | some (writer, bytes) =>
      { terminal with
        up := { terminal.up with transit := terminal.up.transit ++ bytes.take count } }.write writer
          (bytes.drop count)

def Terminal.turn (terminal : Terminal) (thread : Thread) : Terminal :=
  match thread with
  | .input =>
      { terminal with typing := terminal.typing.tail }.write (.loop .input)
        (frameBytes (terminal.typing.take 1))
  | .receiver =>
      { terminal with replying := terminal.replying.tail }.write (.loop .receiver)
        (frameBytes (terminal.replying.take 1))

def Terminal.outbox (terminal : Terminal) : Thread → List Packet
  | .input => terminal.typing
  | .receiver => terminal.replying

def Terminal.hear (terminal : Terminal) (bytes : Bytes) : Terminal :=
  { terminal with down := { terminal.down with transit := terminal.down.transit ++ bytes } }

def Terminal.Listening (terminal : Terminal) : Prop :=
  terminal.replying = [] ∧ ∀ entry ∈ terminal.writing, terminal.started ∧ entry.1 = .loop .input

instance (terminal : Terminal) : Decidable terminal.Listening := inferInstanceAs (Decidable (_ ∧ _))

def Wired.updateTerminal (wired : Wired) (fd : Fd) (update : Terminal → Terminal) : Wired :=
  match wired.terminals.lookup fd with
  | none => wired
  | some terminal => { wired with terminals := wired.terminals.insert fd (update terminal) }

def Wired.call (wired : Wired) (event : Server.Event) : Wired :=
  let outcome := event.action.run wired.server
  { server := outcome.state
    sending := wired.sending ++
      (Server.sends outcome.output).map fun sent => (sent.1, encode (makeFrame sent.2.1 sent.2.2))
    terminals := wired.terminals.restrict fun fd => fd ∈ outcome.state.registry.clientsByFd }

section Step

variable (cipher : Monocypher)

def Terminal.handle (terminal : Terminal) (incoming : Option Frame) : Terminal :=
  if terminal.started then
    let outcome := (receiveNext cipher incoming).run terminal.client
    { terminal with client := outcome.state, replying := packets outcome.output }
  else
    let outcome := (startUp incoming).run terminal.client
    { terminal with client := outcome.state, started := outcome.result.isOk }.write .start
      (frameBytes (packets outcome.output))

def Terminal.receive (terminal : Terminal) : Terminal :=
  if wanted terminal.down.taken = 0 then
    { terminal with down := { terminal.down with taken := [] } }.handle cipher
      (gathered terminal.down.taken)
  else terminal

def Terminal.obey (terminal : Terminal) (command : InputCommand) : Terminal :=
  let outcome := (handleInputCommand cipher command).run terminal.client
  { terminal with client := outcome.state, typing := packets outcome.output }

def wiredStep (wired : Wired) : WiredEvent → Wired
  | .join fd nickname saved random =>
      Wired.call
        { wired with
          terminals := wired.terminals.insert fd { client := launch cipher nickname saved random } }
        (.accept fd "")
  | .leave fd => wired.call (.remove fd)
  | .hangUp fd => wired.updateTerminal fd fun terminal => { terminal with gone := true }
  | .ban ids => wired.call (.ban ids)
  | .poll fd =>
      -- a banned client is removed unread
      if ∃ sender ∈ wired.server.registry.findByFd fd, wired.server.isBanned sender.id then
        wired.call (.data fd none)
      else { wired with reading := some fd }
  | .serverRead count =>
      match wired.reading with
      | none => wired
      | some fd =>
        wired.updateTerminal fd fun terminal => { terminal with up := terminal.up.read count }
  | .serverReceive =>
      match wired.reading with
      | none => wired
      | some fd =>
          match wired.terminals.lookup fd with
          | none => wired
          | some terminal =>
              if wanted terminal.up.taken = 0 then
                (wired.updateTerminal fd fun terminal =>
                  { terminal with up := { terminal.up with taken := [] } }).call
                    (.data fd (gathered terminal.up.taken))
              else wired
  | .serverSend count =>
      match wired.sending with
      | [] => wired
      | (fd, bytes) :: more =>
          -- `write_exact` gives up when the other end is closed, and nobody looks at what it
          -- returns
          if ∃ terminal ∈ wired.terminals.lookup fd, terminal.gone = false then
            { wired.updateTerminal fd (·.hear (bytes.take count)) with
              sending := if bytes.drop count = [] then more else (fd, bytes.drop count) :: more }
          else { wired with sending := more }
  | .command fd command => wired.updateTerminal fd (·.obey cipher command)
  | .turn fd thread => wired.updateTerminal fd (·.turn thread)
  | .clientSend fd count => wired.updateTerminal fd (·.send count)
  | .clientRead fd count =>
      wired.updateTerminal fd fun terminal => { terminal with down := terminal.down.read count }
  | .clientReceive fd => wired.updateTerminal fd (·.receive cipher)

def WiredInitial (wired : Wired) : Prop := wired = {}

def Brief (packet : Packet) : Prop := packet.frame.pdu.length ≤ 65534

instance (packet : Packet) : Decidable (Brief packet) := inferInstanceAs (Decidable (_ ≤ _))

def BriefCall (server : ServerViewModel) (event : Server.Event) : Prop :=
  ∀ sent ∈ Server.sends (event.action.run server).output,
    Brief { type := sent.2.1, payload := sent.2.2 }

instance (server : ServerViewModel) (event : Server.Event) : Decidable (BriefCall server event) :=
  inferInstanceAs (Decidable (∀ sent ∈ Server.sends _, _))

def Wired.Free (wired : Wired) : Prop := wired.reading = none ∧ wired.sending = []

instance (wired : Wired) : Decidable wired.Free := inferInstanceAs (Decidable (_ ∧ _))

/--
The kernel takes and gives at least one byte, and takes no more than it has room for. The server
turns to a connection when `poll` reports that it can be read, and may find the one it reads from
closed. No thread of a client turns to a frame while the other writes, and none does anything after
its process.
-/
def Enabled (capacity : Nat) (wired : Wired) : WiredEvent → Prop
  | .join fd nickname saved _ =>
      wired.Free ∧ Allowed cipher { server := wired.server } (.join fd nickname saved fun _ => 0)
  | .leave fd => wired.sending = [] ∧ (wired.reading = none ∨ wired.reading = some fd)
  | .hangUp _ => True
  | .ban _ => wired.Free
  | .poll fd => wired.Free ∧ ∃ terminal ∈ wired.terminals.lookup fd, terminal.up.transit ≠ []
  | .serverRead count => 0 < count
  | .serverReceive => wired.sending = []
  | .serverSend count =>
      0 < count ∧ ∀ entry ∈ wired.sending.head?, ∀ terminal ∈ wired.terminals.lookup entry.1,
        terminal.gone ∨ terminal.down.transit.length + count ≤ capacity
  | .command fd _ =>
      ∀ terminal ∈ wired.terminals.lookup fd, terminal.gone = false ∧ terminal.started ∧
        terminal.typing = [] ∧ ∀ entry ∈ terminal.writing, entry.1 = .loop .receiver
  | .turn fd _ =>
    ∀ terminal ∈ wired.terminals.lookup fd, terminal.gone = false ∧ terminal.writing = none
  | .clientSend fd count =>
      0 < count ∧ ∀ terminal ∈ wired.terminals.lookup fd,
        terminal.gone = false ∧ terminal.up.transit.length + count ≤ capacity
  | .clientRead fd count =>
      0 < count ∧ ∀ terminal ∈ wired.terminals.lookup fd, terminal.gone = false ∧ terminal.Listening
  | .clientReceive fd =>
      ∀ terminal ∈ wired.terminals.lookup fd, terminal.gone = false ∧ terminal.Listening

instance Enabled.decidable (capacity : Nat) (wired : Wired) :
    (event : WiredEvent) → Decidable (Enabled cipher capacity wired event)
  | .join fd nickname saved _ => inferInstanceAs (Decidable
      (wired.Free ∧ Allowed cipher { server := wired.server } (.join fd nickname saved fun _ => 0)))
  | .leave fd => inferInstanceAs (Decidable
      (wired.sending = [] ∧ (wired.reading = none ∨ wired.reading = some fd)))
  | .hangUp _ => .isTrue trivial
  | .ban _ => inferInstanceAs (Decidable wired.Free)
  | .poll fd => inferInstanceAs (Decidable
      (wired.Free ∧ ∃ terminal ∈ wired.terminals.lookup fd, terminal.up.transit ≠ []))
  | .serverRead count => inferInstanceAs (Decidable (0 < count))
  | .serverReceive => inferInstanceAs (Decidable (wired.sending = []))
  | .serverSend count => inferInstanceAs (Decidable
      (0 < count ∧ ∀ entry ∈ wired.sending.head?, ∀ terminal ∈ wired.terminals.lookup entry.1,
        terminal.gone ∨ terminal.down.transit.length + count ≤ capacity))
  | .command fd _ => inferInstanceAs (Decidable
      (∀ terminal ∈ wired.terminals.lookup fd, terminal.gone = false ∧ terminal.started ∧
        terminal.typing = [] ∧ ∀ entry ∈ terminal.writing, entry.1 = .loop .receiver))
  | .turn fd _ => inferInstanceAs (Decidable
      (∀ terminal ∈ wired.terminals.lookup fd, terminal.gone = false ∧ terminal.writing = none))
  | .clientSend fd count => inferInstanceAs (Decidable
      (0 < count ∧ ∀ terminal ∈ wired.terminals.lookup fd,
        terminal.gone = false ∧ terminal.up.transit.length + count ≤ capacity))
  | .clientRead fd count => inferInstanceAs (Decidable
      (0 < count ∧ ∀ terminal ∈ wired.terminals.lookup fd, terminal.gone = false ∧
        terminal.Listening))
  | .clientReceive fd => inferInstanceAs (Decidable
      (∀ terminal ∈ wired.terminals.lookup fd, terminal.gone = false ∧ terminal.Listening))

/--
The frames that the event makes somebody write are no longer than their length field can tell.
-/
def BriefEvent (wired : Wired) : WiredEvent → Prop
  | .join fd _ _ _ => BriefCall wired.server (.accept fd "")
  | .leave fd => BriefCall wired.server (.remove fd)
  | .ban ids => BriefCall wired.server (.ban ids)
  | .poll fd =>
      (∃ sender ∈ wired.server.registry.findByFd fd, wired.server.isBanned sender.id) →
        BriefCall wired.server (.data fd none)
  | .serverReceive =>
      ∀ fd ∈ wired.reading, ∀ terminal ∈ wired.terminals.lookup fd,
        BriefCall wired.server (.data fd (gathered terminal.up.taken))
  | .turn fd thread =>
      ∀ terminal ∈ wired.terminals.lookup fd, ∀ packet ∈ (terminal.outbox thread).head?,
        Brief packet
  | .clientReceive fd =>
      ∀ terminal ∈ wired.terminals.lookup fd, ¬ terminal.started →
        ∀ packet ∈ packets ((startUp (gathered terminal.down.taken)).run terminal.client).output,
          Brief packet
  | .hangUp _ | .serverRead _ | .serverSend _ | .command .. | .clientSend .. | .clientRead .. =>
    True

instance BriefEvent.decidable (wired : Wired) :
    (event : WiredEvent) → Decidable (BriefEvent wired event)
  | .join fd _ _ _ => inferInstanceAs (Decidable (BriefCall wired.server (.accept fd "")))
  | .leave fd => inferInstanceAs (Decidable (BriefCall wired.server (.remove fd)))
  | .ban ids => inferInstanceAs (Decidable (BriefCall wired.server (.ban ids)))
  | .poll fd => inferInstanceAs (Decidable
      ((∃ sender ∈ wired.server.registry.findByFd fd, wired.server.isBanned sender.id) →
        BriefCall wired.server (.data fd none)))
  | .serverReceive => inferInstanceAs (Decidable
      (∀ fd ∈ wired.reading, ∀ terminal ∈ wired.terminals.lookup fd,
        BriefCall wired.server (.data fd (gathered terminal.up.taken))))
  | .turn fd thread => inferInstanceAs (Decidable
      (∀ terminal ∈ wired.terminals.lookup fd, ∀ packet ∈ (terminal.outbox thread).head?,
        Brief packet))
  | .clientReceive fd => inferInstanceAs (Decidable
      (∀ terminal ∈ wired.terminals.lookup fd, ¬ terminal.started →
        ∀ packet ∈ packets ((startUp (gathered terminal.down.taken)).run terminal.client).output,
          Brief packet))
  | .hangUp _ | .serverRead _ | .serverSend _ | .command .. | .clientSend .. | .clientRead .. =>
      .isTrue trivial

def WiredAllowed (capacity : Nat) (wired : Wired) (event : WiredEvent) : Prop :=
  Enabled cipher capacity wired event ∧ BriefEvent wired event

instance (capacity : Nat) (wired : Wired) (event : WiredEvent) :
    Decidable (WiredAllowed cipher capacity wired event) := inferInstanceAs (Decidable (_ ∧ _))

abbrev WiredReachable (capacity : Nat) : Wired → Prop :=
  Runs.Reachable WiredInitial (WiredAllowed cipher capacity) (wiredStep cipher)

end Step

/--
The terminal is the node, with the messages of its queues cut into bytes. What is not written to a
process that has ended is of no concern.
-/
structure Terminal.Shows (terminal : Terminal) (pending : Bytes) (node : Node) : Prop where
  client : node.client = terminal.client
  started : node.started = terminal.started
  typing : node.typing = terminal.typing
  replying : node.replying = terminal.replying
  up : frameFormat.Holds terminal.up.taken (terminal.up.transit ++ terminal.left)
    (node.toServer.map Packet.frame)
  down : terminal.gone = false →
    frameFormat.Holds terminal.down.taken (terminal.down.transit ++ pending)
      (node.fromServer.map Packet.frame)

namespace Terminal

variable {cipher : Monocypher} {terminal : Terminal} {pending : Bytes} {node : Node}

@[simp] theorem write_left (terminal : Terminal) (writer : Writer) (bytes : Bytes) :
    (terminal.write writer bytes).left = bytes := by
  unfold write left
  by_cases empty : bytes = [] <;> simp [empty]

theorem left_free (free : terminal.writing = none) : terminal.left = [] := by
  rw [left, free]
  rfl

-- A `write_exact` during which the server does not read is a sequence of calls of `send`.
theorem writeExact_sends (accept : Nat → Int) (accepting : ∀ i, 0 < accept i) {writer : Writer}
    {bytes : Bytes} {out : Outbound} (writing : terminal.writing = some (writer, bytes))
    (nonempty : bytes ≠ []) (same : out.wire = terminal.up.transit) :
    ∃ counts : List Nat, (∀ count ∈ counts, 0 < count) ∧
      (writeExact accept out bytes).2.wire = (counts.foldl Terminal.send terminal).up.transit ∧
      (counts.foldl Terminal.send terminal).writing = none := by
  -- the induction is on the bytes that are left
  induction size : bytes.length using Nat.strong_induction_on generalizing terminal bytes out with
  | _ length ih =>
    obtain ⟨count, positive, inside, call⟩ := writeExact_call accept accepting out nonempty
    have transit : Outbound.wire { wire := out.wire ++ bytes.take count, calls := out.calls + 1 } =
        (terminal.send count).up.transit := by
      simp only [Terminal.send, writing, same]
      rfl
    have rest : (terminal.send count).writing =
        if bytes.drop count = [] then none else some (writer, bytes.drop count) := by
      simp only [Terminal.send, writing]
      rfl
    rw [call]
    by_cases last : bytes.drop count = []
    · refine ⟨[count], by simpa using positive, ?_, rest.trans (if_pos last)⟩
      rw [last, writeExact, if_pos rfl]
      exact transit
    · obtain ⟨counts, positives, wire, done⟩ := ih (bytes.drop count).length
        (by rw [List.length_drop]; omega) (rest.trans (if_neg last)) last transit rfl
      exact ⟨count :: counts, List.forall_mem_cons.mpr ⟨positive, positives⟩, wire, done⟩

theorem Shows.send (shown : terminal.Shows pending node) (count : Nat) :
    (terminal.send count).Shows pending node := by
  cases writing : terminal.writing with
  | none =>
    rw [Terminal.send, writing]
    exact shown
  | some entry =>
    obtain ⟨writer, bytes⟩ := entry
    simp only [Terminal.send, writing]
    have up := shown.up
    rw [show terminal.left = bytes by rw [left, writing]; rfl] at up
    refine ⟨shown.client, shown.started, shown.typing, shown.replying, ?_, shown.down⟩
    rw [write_left]
    change frameFormat.Holds _ (terminal.up.transit ++ bytes.take count ++ bytes.drop count) _
    rwa [List.append_assoc, List.take_append_drop]

-- The thread has handed nothing over yet, but its frame is the next on the stream.
theorem Shows.turn (shown : terminal.Shows pending node) (free : terminal.writing = none)
    {thread : Thread} (brief : ∀ packet ∈ (terminal.outbox thread).head?, Brief packet) :
    (terminal.turn thread).Shows pending (node.flush thread) := by
  have up := shown.up
  rw [left_free free, List.append_nil] at up
  have short : ∀ frame ∈ ((terminal.outbox thread).take 1).map Packet.frame,
      frameFormat.Valid frame := by
    intro frame member
    obtain ⟨packet, first, rfl⟩ := List.mem_map.mp member
    cases box : terminal.outbox thread with
    | nil => simp [box] at first
    | cons next rest =>
      rw [box, List.take_succ_cons, List.take_zero, List.mem_singleton] at first
      exact brief packet (by rw [box, first]; rfl)
  have behind := up.appendAll short
  cases thread with
  | input =>
    refine ⟨shown.client, shown.started, congrArg List.tail shown.typing, shown.replying,
      ?_, shown.down⟩
    rw [Node.flush, shown.typing, List.map_append, Terminal.turn, write_left, frameBytes]
    rwa [List.map_map] at behind
  | receiver =>
    refine ⟨shown.client, shown.started, shown.typing, congrArg List.tail shown.replying,
      ?_, shown.down⟩
    rw [Node.flush, shown.replying, List.map_append, Terminal.turn, write_left, frameBytes]
    rwa [List.map_map] at behind

theorem Shows.obey (shown : terminal.Shows pending node) (command : InputCommand) :
    (terminal.obey cipher command).Shows pending (node.obey cipher command) := by
  unfold Terminal.obey Node.obey
  rw [shown.client]
  exact ⟨rfl, shown.started, rfl, shown.replying, shown.up, shown.down⟩

theorem Shows.readUp (shown : terminal.Shows pending node) (count : Nat) :
    { terminal with up := terminal.up.read count }.Shows pending node :=
  ⟨shown.client, shown.started, shown.typing, shown.replying,
    Pipe.read_holds shown.up count, shown.down⟩

theorem Shows.readDown (shown : terminal.Shows pending node) (count : Nat) :
    { terminal with down := terminal.down.read count }.Shows pending node :=
  ⟨shown.client, shown.started, shown.typing, shown.replying, shown.up,
    fun alive => Pipe.read_holds (shown.down alive) count⟩

theorem next_message {taken ahead : Bytes} {queue : List Packet} (complete : wanted taken = 0)
    (holds : frameFormat.Holds taken ahead (queue.map Packet.frame)) :
    ∃ packet rest, queue = packet :: rest ∧ gathered taken = some packet.frame ∧
      frameFormat.Holds [] ahead (rest.map Packet.frame) := by
  have begun : taken ≠ [] := by
    rintro rfl
    cases complete
  obtain ⟨first, more, blocks, whole, after⟩ := holds.whole begun complete
  obtain ⟨packet, rest, rfl, rfl, rfl⟩ := List.map_eq_cons_iff.mp blocks
  refine ⟨packet, rest, rfl, ?_, after⟩
  rw [whole]
  exact frameFormat.decode_encode (holds.valid packet.frame (by simp))

theorem Shows.receive (shown : terminal.Shows pending node) (alive : terminal.gone = false)
    (listening : terminal.Listening)
    (complete : wanted terminal.down.taken = 0)
    (brief : ¬ terminal.started → ∀ packet ∈ packets ((startUp (gathered terminal.down.taken)).run
      terminal.client).output, Brief packet) :
    ∃ packet rest, node.fromServer = packet :: rest ∧
      (terminal.receive cipher).Shows pending
        ({ node with fromServer := rest }.handle cipher packet) := by
  obtain ⟨packet, rest, queue, frame, after⟩ := next_message complete (shown.down alive)
  refine ⟨packet, rest, queue, ?_⟩
  rw [Terminal.receive, if_pos complete, frame]
  rw [frame] at brief
  unfold Terminal.handle Node.handle
  dsimp only
  by_cases started : terminal.started
  · have running : node.started = true := shown.started.trans started
    rw [if_pos started, if_pos running, shown.client]
    exact ⟨rfl, shown.started, shown.typing, rfl, shown.up, fun _ => after⟩
  · have waiting : ¬ node.started = true := shown.started ▸ started
    have free : terminal.writing = none :=
      Option.eq_none_iff_forall_not_mem.mpr fun entry member => started (listening.2 entry member).1
    have up := shown.up
    rw [left_free free, List.append_nil] at up
    rw [if_neg started, if_neg waiting, shown.client]
    refine ⟨rfl, rfl, shown.typing, shown.replying, ?_, fun _ => after⟩
    rw [write_left, List.map_append, frameBytes, show (fun packet : Packet => encode packet.frame) =
      encode ∘ Packet.frame from rfl, ← List.map_map]
    refine up.appendAll fun other member => ?_
    obtain ⟨sent, listed, rfl⟩ := List.mem_map.mp member
    exact brief started sent listed

end Terminal

def pendingIn (sending : List (Fd × Bytes)) (fd : Fd) : Bytes :=
  ((sending.filter (·.1 = fd)).map Prod.snd).flatten

theorem pendingIn_cons (fd other : Fd) (bytes : Bytes) (more : List (Fd × Bytes)) :
    pendingIn ((fd, bytes) :: more) other = (if fd = other then bytes else []) ++
      pendingIn more other := by
  rw [pendingIn, List.filter_cons]
  by_cases same : fd = other <;> simp [same, pendingIn]

def Wired.pending (wired : Wired) (fd : Fd) : Bytes := pendingIn wired.sending fd

structure Wired.Shows (wired : Wired) (world : World) : Prop where
  server : world.server = wired.server
  nodes : ∀ fd, Option.Rel (fun terminal node => terminal.Shows (wired.pending fd) node)
    (wired.terminals.lookup fd) (world.nodes.lookup fd)

theorem World.call_congr {world : World} {event other : Server.Event}
    (same : event.action.run world.server = other.action.run world.server) :
    world.call event = world.call other := by
  unfold World.call
  rw [same]

theorem World.updateNode_lookup (world : World) (fd other : Fd) (update : Node → Node) :
    (world.updateNode fd update).nodes.lookup other =
      if other = fd then (world.nodes.lookup fd).map update else world.nodes.lookup other := by
  unfold World.updateNode
  cases found : world.nodes.lookup fd with
  | none =>
    by_cases same : other = fd
    · subst same
      simp [found]
    · simp [same]
  | some node => simp [Table.lookup_insert_eq]

namespace Wired

variable {cipher : Monocypher} {capacity : Nat} {wired : Wired} {world : World} {fd : Fd}

theorem pending_nil (idle : wired.sending = []) (fd : Fd) : wired.pending fd = [] := by
  simp [Wired.pending, pendingIn, idle]

theorem pending_cons {bytes : Bytes} {more : List (Fd × Bytes)}
    (busy : wired.sending = (fd, bytes) :: more)
    (other : Fd) :
    wired.pending other = (if fd = other then bytes else []) ++ pendingIn more other := by
  rw [Wired.pending, busy, pendingIn_cons]

theorem updateTerminal_lookup (wired : Wired) (fd other : Fd) (update : Terminal → Terminal) :
    (wired.updateTerminal fd update).terminals.lookup other =
      if other = fd then (wired.terminals.lookup fd).map update
        else wired.terminals.lookup other := by
  unfold updateTerminal
  cases found : wired.terminals.lookup fd with
  | none =>
    by_cases same : other = fd
    · subst same
      simp [found]
    · simp [same]
  | some terminal => simp [Table.lookup_insert_eq]

@[simp] theorem updateTerminal_server (wired : Wired) (fd : Fd) (update : Terminal → Terminal) :
    (wired.updateTerminal fd update).server = wired.server := by
  unfold updateTerminal
  split <;> rfl

@[simp] theorem updateTerminal_sending (wired : Wired) (fd : Fd) (update : Terminal → Terminal) :
    (wired.updateTerminal fd update).sending = wired.sending := by
  unfold updateTerminal
  split <;> rfl

theorem Shows.node {terminal : Terminal} (shown : wired.Shows world)
    (found : wired.terminals.lookup fd = some terminal) :
    ∃ node, world.nodes.lookup fd = some node ∧ terminal.Shows (wired.pending fd) node := by
  have related := shown.nodes fd
  rw [found] at related
  generalize world.nodes.lookup fd = other at related ⊢
  cases related with
  | some here => exact ⟨_, rfl, here⟩

theorem Shows.missing (shown : wired.Shows world) (absent : wired.terminals.lookup fd = none) :
    world.nodes.lookup fd = none := by
  have related := shown.nodes fd
  rw [absent] at related
  generalize world.nodes.lookup fd = other at related ⊢
  cases related
  rfl

theorem Shows.terminal {node : Node} (shown : wired.Shows world)
    (there : world.nodes.lookup fd = some node) :
    ∃ terminal, wired.terminals.lookup fd = some terminal ∧
      terminal.Shows (wired.pending fd) node := by
  have related := shown.nodes fd
  rw [there] at related
  generalize wired.terminals.lookup fd = other at related ⊢
  cases related with
  | some here => exact ⟨_, rfl, here⟩

theorem Shows.update (shown : wired.Shows world) {update : Terminal → Terminal}
    {change : Node → Node} (keeps : ∀ terminal node, wired.terminals.lookup fd = some terminal →
      world.nodes.lookup fd = some node → terminal.Shows (wired.pending fd) node →
        (update terminal).Shows (wired.pending fd) (change node)) :
    (wired.updateTerminal fd update).Shows (world.updateNode fd change) where
  server := by rw [updateNode_server, updateTerminal_server, shown.server]
  nodes other := by
    have pending : (wired.updateTerminal fd update).pending other = wired.pending other := by
      rw [Wired.pending, updateTerminal_sending]
      rfl
    rw [updateTerminal_lookup, World.updateNode_lookup, pending]
    by_cases same : other = fd
    · subst same
      rw [if_pos rfl, if_pos rfl]
      cases found : wired.terminals.lookup other with
      | none =>
        rw [shown.missing found]
        exact .none
      | some terminal =>
        obtain ⟨node, there, here⟩ := shown.node found
        rw [there]
        exact .some (keeps terminal node found there here)
    · rw [if_neg same, if_neg same]
      exact shown.nodes other

theorem Shows.stay (shown : wired.Shows world) {update : Terminal → Terminal}
    (keeps : ∀ terminal node, wired.terminals.lookup fd = some terminal →
      terminal.Shows (wired.pending fd) node → (update terminal).Shows (wired.pending fd) node) :
    (wired.updateTerminal fd update).Shows world := by
  have moved := shown.update fun terminal node found _ here => keeps terminal node found here
  have same (other : Fd) : (world.updateNode fd fun node => node).nodes.lookup other =
      world.nodes.lookup other := by
    rw [World.updateNode_lookup]
    split_ifs with here
    · subst here
      cases world.nodes.lookup other <;> rfl
    · rfl
  exact ⟨by rw [← moved.server, updateNode_server], fun other => same other ▸ moved.nodes other⟩

theorem call_pending (wired : Wired) (idle : wired.sending = []) (event : Server.Event) (fd : Fd) :
    (wired.call event).pending fd =
      (((inbox fd (event.action.run wired.server).output).map Packet.frame).map
        encode).flatten := by
  simp only [Wired.pending, pendingIn, Wired.call, idle, List.nil_append, inbox, List.filter_map,
    List.map_map]
  rfl

theorem brief_inbox {server : ServerViewModel} {event : Server.Event}
    (brief : BriefCall server event) (fd : Fd) :
    ∀ frame ∈ (inbox fd (event.action.run server).output).map Packet.frame,
      frameFormat.Valid frame := by
  intro frame member
  obtain ⟨packet, received, rfl⟩ := List.mem_map.mp member
  obtain ⟨sent, listed, rfl⟩ := List.mem_map.mp received
  exact brief sent (List.mem_filter.mp listed).1

theorem Shows.call (shown : wired.Shows world) (idle : wired.sending = []) {event : Server.Event}
    (brief : BriefCall wired.server event) : (wired.call event).Shows (world.call event) where
  server := by
    rw [World.call, shown.server]
    rfl
  nodes fd := by
    have before := pending_nil idle fd
    rw [World.call_lookup, call_pending wired idle, shown.server]
    simp only [Wired.call, Table.lookup_restrict, decide_eq_true_eq]
    rw [show (event.action.run wired.server).state = Server.step wired.server event from rfl]
    split_ifs with stays
    · cases found : wired.terminals.lookup fd with
      | none =>
        rw [shown.missing found]
        exact .none
      | some terminal =>
        obtain ⟨node, there, here⟩ := shown.node found
        rw [there, Option.map_some]
        refine .some ⟨here.client, here.started, here.typing, here.replying, here.up,
          fun alive => ?_⟩
        have told := (here.down alive).appendAll (brief_inbox brief fd)
        rw [before, List.append_nil] at told
        rw [List.map_append]
        exact told
    · exact .none

theorem Shows.insert (shown : wired.Shows world) (idle : wired.sending = []) (fd : Fd)
    (client : ClientViewModel) (history : List Happening) :
    { wired with terminals := wired.terminals.insert fd { client } }.Shows
      { world with nodes := world.nodes.insert fd { client }, history } where
  server := shown.server
  nodes other := by
    have empty := pending_nil idle other
    change Option.Rel _ ((wired.terminals.insert fd { client }).lookup other)
      ((world.nodes.insert fd { client }).lookup other)
    rw [Table.lookup_insert_eq, Table.lookup_insert_eq]
    split_ifs with same
    · refine .some ⟨rfl, rfl, rfl, rfl, .nothing, fun _ => ?_⟩
      change frameFormat.Holds [] ([] ++ wired.pending other) []
      rw [empty]
      exact .nothing
    · exact shown.nodes other

theorem Shows.send (shown : wired.Shows world) {bytes : Bytes} {more : List (Fd × Bytes)}
    (busy : wired.sending = (fd, bytes) :: more) (count : Nat) :
    { wired.updateTerminal fd (·.hear (bytes.take count)) with
      sending := if bytes.drop count = [] then more else (fd, bytes.drop count) :: more }.Shows
        world where
  server := by rw [shown.server, ← updateTerminal_server]
  nodes other := by
    have before := pending_cons busy other
    have after :
        pendingIn (if bytes.drop count = [] then more else (fd, bytes.drop count) :: more) other =
        (if fd = other then bytes.drop count else []) ++ pendingIn more other := by
      by_cases done : bytes.drop count = []
      · simp [done]
      · rw [if_neg done, pendingIn_cons]
    have related := shown.nodes other
    rw [before] at related
    simp only [Wired.pending, after]
    rw [updateTerminal_lookup]
    by_cases same : other = fd
    · subst same
      rw [if_pos rfl, if_pos rfl]
      rw [if_pos rfl] at related
      generalize wired.terminals.lookup other = terminal, world.nodes.lookup other = node at related
      cases related with
      | none => exact .none
      | @some terminal node here =>
        refine .some ⟨here.client, here.started, here.typing, here.replying, here.up,
          fun alive => ?_⟩
        have down := here.down alive
        rw [← List.take_append_drop count bytes, List.append_assoc,
          ← List.append_assoc terminal.down.transit]
          at down
        exact down
    · rw [if_neg same, if_neg (Ne.symm same)]
      rw [if_neg (Ne.symm same)] at related
      exact related

theorem Shows.giveUp (shown : wired.Shows world) {bytes : Bytes} {more : List (Fd × Bytes)}
    (busy : wired.sending = (fd, bytes) :: more)
    (gone : ¬ ∃ terminal ∈ wired.terminals.lookup fd, terminal.gone = false) :
    { wired with sending := more }.Shows world where
  server := shown.server
  nodes other := by
    have before := pending_cons busy other
    have related := shown.nodes other
    rw [before] at related
    by_cases same : fd = other
    · subst same
      cases found : wired.terminals.lookup fd with
      | none => exact shown.missing found ▸ .none
      | some terminal =>
        obtain ⟨node, there, here⟩ := shown.node found
        rw [there]
        exact .some ⟨here.client, here.started, here.typing, here.replying, here.up,
          fun alive => absurd ⟨terminal, found, alive⟩ gone⟩
    · rw [if_neg same, List.nil_append] at related
      exact related

theorem wild_of_reachable (reachable : Reachable cipher world) : WildReachable cipher world := by
  induction reachable with
  | start first => exact .start first
  | @next world event earlier may ih =>
    have own : WildAllowed cipher world (.own event) := may
    exact .next ih own

theorem Shows.poll (shown : wired.Shows world) (reachable : Reachable cipher world) {fd : Fd}
    (idle : wired.sending = []) (brief : BriefEvent wired (.poll fd)) :
    ∃ after, Reachable cipher after ∧ (wiredStep cipher wired (.poll fd)).Shows after := by
  simp only [wiredStep]
  split_ifs with banned
  · -- what a banned client has sent is not read: its connection is closed
    obtain ⟨sender, found, silenced⟩ := banned
    have sane := wild_sane (wild_of_reachable reachable)
    rw [← shown.server] at found silenced
    have short := (Server.reachable_recordFits sane.reachable fd sender found).short
    have removal := Server.handleClientData_banned found short
      (by simpa [ServerViewModel.isBanned] using silenced) none
    have same : world.call (.data fd none) = world.call (.remove fd) := World.call_congr removal
    rw [shown.server] at found silenced
    have called := shown.call idle (brief ⟨sender, found, silenced⟩)
    rw [same] at called
    have may : Allowed cipher world (.leave fd) := trivial
    exact ⟨_, reachable.next may, called⟩
  · exact ⟨world, reachable, shown.server, shown.nodes⟩

theorem Shows.serverReceive (shown : wired.Shows world) (reachable : Reachable cipher world)
    (idle : wired.sending = []) (brief : BriefEvent wired .serverReceive) :
    ∃ after, Reachable cipher after ∧ (wiredStep cipher wired .serverReceive).Shows after := by
  cases reading : wired.reading with
  | none =>
    simp only [wiredStep, reading]
    exact ⟨world, reachable, shown⟩
  | some fd =>
    cases found : wired.terminals.lookup fd with
    | none =>
      simp only [wiredStep, reading, found]
      exact ⟨world, reachable, shown⟩
    | some terminal =>
      simp only [wiredStep, reading, found]
      split_ifs with complete
      · obtain ⟨node, there, here⟩ := shown.node found
        obtain ⟨packet, rest, queue, frame, after⟩ := Terminal.next_message complete here.up
        have taken : (wired.updateTerminal fd fun terminal =>
            { terminal with up := { terminal.up with taken := [] } }).Shows
              (world.updateNode fd fun node => { node with toServer := rest }) :=
          shown.update fun other twin same _ shows => by
            obtain rfl := Option.some.inj (same.symm.trans found)
            exact ⟨shows.client, shows.started, shows.typing, shows.replying, after, shows.down⟩
        have called := taken.call (by rw [updateTerminal_sending]; exact idle)
          (by rw [updateTerminal_server]; exact brief fd reading terminal found)
        have may : Allowed cipher world (.serverReceive fd) := trivial
        refine ⟨_, reachable.next may, ?_⟩
        rw [frame] at called ⊢
        simpa only [System.step, there, queue] using called
      · exact ⟨world, reachable, shown⟩

theorem Shows.serverSend (shown : wired.Shows world) (count : Nat) :
    (wiredStep cipher wired (.serverSend count)).Shows world := by
  cases busy : wired.sending with
  | nil =>
    simp only [wiredStep, busy]
    exact shown
  | cons entry more =>
    simp only [wiredStep, busy]
    by_cases reached : ∃ terminal ∈ wired.terminals.lookup entry.1, terminal.gone = false
    · rw [if_pos reached]
      exact shown.send busy count
    · rw [if_neg reached]
      exact shown.giveUp busy reached

theorem Shows.clientReceive (shown : wired.Shows world) (reachable : Reachable cipher world)
    {fd : Fd} (enabled : Enabled cipher capacity wired (.clientReceive fd))
    (brief : BriefEvent wired (.clientReceive fd)) :
    ∃ after, Reachable cipher after ∧ (wiredStep cipher wired (.clientReceive fd)).Shows after := by
  simp only [wiredStep]
  cases found : wired.terminals.lookup fd with
  | none =>
    rw [updateTerminal, found]
    exact ⟨world, reachable, shown⟩
  | some terminal =>
    obtain ⟨node, there, here⟩ := shown.node found
    obtain ⟨alive, listening⟩ := enabled terminal found
    by_cases complete : wanted terminal.down.taken = 0
    · obtain ⟨packet, rest, queue, handled⟩ :=
        @Terminal.Shows.receive cipher _ _ _ here alive listening complete (brief terminal found)
      have moved : (wired.updateTerminal fd (·.receive cipher)).Shows
          (world.updateNode fd fun node =>
            { node with fromServer := rest }.handle cipher packet) :=
        shown.update fun other twin same alike _ => by
          obtain rfl := Option.some.inj (same.symm.trans found)
          obtain rfl := Option.some.inj (alike.symm.trans there)
          exact handled
      have may : Allowed cipher world (.clientReceive fd) := fun twin alike => by
        obtain rfl := Option.some.inj (alike.symm.trans there)
        exact here.replying.trans listening.1
      refine ⟨_, reachable.next may, ?_⟩
      simp only [System.step, there, queue]
      exact ⟨moved.server, moved.nodes⟩
    · refine ⟨world, reachable, shown.stay fun other twin same shows => ?_⟩
      obtain rfl := Option.some.inj (same.symm.trans found)
      rw [Terminal.receive, if_neg complete]
      exact shows

-- Each step is one of the world, or moves bytes within a queue.
theorem Shows.step (shown : wired.Shows world) (reachable : Reachable cipher world)
    {event : WiredEvent} (enabled : Enabled cipher capacity wired event)
    (brief : BriefEvent wired event) :
    ∃ after, Reachable cipher after ∧ (wiredStep cipher wired event).Shows after := by
  have goes (event : Event) (may : Allowed cipher world event) :
      Reachable cipher (System.step cipher world event) := reachable.next may
  cases event with
  | join fd nickname saved random =>
    obtain ⟨⟨-, idle⟩, may⟩ := enabled
    rw [← shown.server] at may
    exact ⟨_, goes (.join fd nickname saved random) may, (shown.insert idle fd _ _).call idle brief⟩
  | leave fd => exact ⟨_, goes (.leave fd) trivial, shown.call enabled.1 brief⟩
  | hangUp fd =>
    exact ⟨world, reachable, shown.stay fun _ _ _ here =>
      ⟨here.client, here.started, here.typing, here.replying, here.up, fun alive => by cases alive⟩⟩
  | ban ids => exact ⟨_, goes (.ban ids) trivial, shown.call enabled.2 brief⟩
  | poll fd => exact shown.poll reachable enabled.1.2 brief
  | serverRead count =>
    cases reading : wired.reading with
    | none =>
      simp only [wiredStep, reading]
      exact ⟨world, reachable, shown⟩
    | some fd =>
      simp only [wiredStep, reading]
      exact ⟨world, reachable, shown.stay fun terminal node found here => here.readUp count⟩
  | serverReceive => exact shown.serverReceive reachable enabled brief
  | serverSend count => exact ⟨world, reachable, shown.serverSend count⟩
  | command fd command =>
    refine ⟨_, goes (.command fd command) fun node there => ?_,
      shown.update fun _ _ _ _ here => here.obey command⟩
    obtain ⟨terminal, found, here⟩ := shown.terminal there
    obtain ⟨-, started, quiet, -⟩ := enabled terminal found
    exact ⟨here.started.trans started, here.typing.trans quiet⟩
  | turn fd thread =>
    exact ⟨_, goes (.flush fd thread) trivial, shown.update fun terminal _ found _ here =>
      here.turn (enabled terminal found).2 (brief terminal found)⟩
  | clientSend fd count => exact ⟨world, reachable, shown.stay fun _ _ _ here => here.send count⟩
  | clientRead fd count =>
    exact ⟨world, reachable, shown.stay fun _ _ _ here => here.readDown count⟩
  | clientReceive fd => exact shown.clientReceive reachable enabled brief

end Wired

def Terminal.Idle (terminal : Terminal) : Prop :=
  terminal.gone = false ∧ terminal.typing = [] ∧ terminal.replying = [] ∧ terminal.writing = none ∧
    terminal.up = {} ∧ terminal.down = {}

def Wired.Idle (wired : Wired) : Prop :=
  wired.Free ∧ ∀ terminal ∈ wired.terminals.values, terminal.Idle

theorem Terminal.Shows.idle {terminal : Terminal} {node : Node} (shown : terminal.Shows [] node)
    (idle : terminal.Idle) :
    node.typing = [] ∧ node.replying = [] ∧ node.toServer = [] ∧ node.fromServer = [] := by
  obtain ⟨alive, typing, replying, writing, up, down⟩ := idle
  have sent := shown.up
  have received := shown.down alive
  rw [up, show terminal.left = [] by rw [left, writing]; rfl] at sent
  rw [down] at received
  exact ⟨shown.typing.trans typing, shown.replying.trans replying,
    List.map_eq_nil_iff.mp sent.blocks_eq_nil, List.map_eq_nil_iff.mp received.blocks_eq_nil⟩

theorem wired_shows {cipher : Monocypher} {capacity : Nat} {wired : Wired}
    (reachable : WiredReachable cipher capacity wired) :
    ∃ world, Reachable cipher world ∧ wired.Shows world := by
  refine reachable.invariant (fun wired => ∃ world, Reachable cipher world ∧ wired.Shows world) ?_
    ?_
  · rintro wired rfl
    exact ⟨{}, .start rfl, rfl, fun fd => .none⟩
  · rintro wired event ⟨world, run, shown⟩ ⟨enabled, brief⟩
    exact shown.step run enabled brief

/--
In every run, however the kernel cuts the streams, the server and the clients are in the states of a
run in which whole messages are passed on in order. The bytes of each stream are those of the
messages that are on their way, and nothing is read beyond the first of them.
-/
theorem bytes_carry_messages {cipher : Monocypher} {capacity : Nat} {wired : Wired}
    (reachable : WiredReachable cipher capacity wired) :
    ∃ world, Reachable cipher world ∧ wired.Shows world ∧ (wired.Idle → world.Quiescent) := by
  obtain ⟨world, run, shown⟩ := wired_shows reachable
  refine ⟨world, run, shown, fun idle node member => ?_⟩
  obtain ⟨fd, there⟩ := Table.mem_values.mp member
  obtain ⟨terminal, found, here⟩ := shown.terminal there
  rw [Wired.pending_nil idle.1.2 fd] at here
  exact here.idle (idle.2 terminal (Table.mem_values.mpr ⟨fd, found⟩))

-- Two clients join. The server tells the first of the second while the first is registering its
-- nickname, and the kernel has no room for either message.
def crossing : List WiredEvent :=
  [.join 5 (ascii "al") none (fun _ => 7), .serverSend 8, .clientRead 5 8, .clientRead 5 8,
    .serverSend 8,
    .clientRead 5 8, .clientReceive 5, .clientSend 5 8, .join 6 (ascii "bo") none (fun _ => 9),
    .serverSend 8, .clientRead 6 8, .clientRead 6 8, .serverSend 8, .clientRead 6 8, .serverSend 8]

def crossed : Wired := crossing.foldl (wiredStep transparent) {}

theorem crossed_reachable : WiredReachable transparent 8 crossed :=
  Runs.Reachable.foldl (.start rfl) (by decide +kernel)

theorem bytes_carry_messages_crossed :
    ∃ world, Reachable transparent world ∧ crossed.Shows world ∧ (crossed.Idle → world.Quiescent) :=
  bytes_carry_messages crossed_reachable

end ModbusChat.System
