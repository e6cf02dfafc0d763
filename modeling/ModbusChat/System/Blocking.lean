import ModbusChat.System.Wired

set_option autoImplicit false

-- The server reads nothing while it writes, and the thread of a client that reads does not while it
-- writes. If both write and the kernel has no more room in either direction, neither gets any
-- further.

namespace ModbusChat.System

open BigEndian Effects Wire Client
open Server (Fd ServerViewModel)

theorem drop_ne_self {bytes : Bytes} {count : Nat} (positive : 0 < count) (nonempty : bytes ≠ []) :
    bytes.drop count ≠ bytes := by
  intro same
  have shorter := congrArg List.length same
  have length := List.length_pos_iff_ne_nil.mpr nonempty
  rw [List.length_drop] at shorter
  omega

namespace Terminal

variable {cipher : Monocypher} {capacity : Nat} {terminal : Terminal}

theorem turn_up (terminal : Terminal) (thread : Thread) :
    (terminal.turn thread).up = terminal.up := by
  cases thread <;> rfl

theorem receive_up (terminal : Terminal) : (terminal.receive cipher).up = terminal.up := by
  unfold receive handle
  split_ifs <;> rfl

theorem send_up (terminal : Terminal) (count : Nat) :
    ∃ more, (terminal.send count).up =
      { terminal.up with transit := terminal.up.transit ++ more } := by
  unfold send
  split
  · exact ⟨[], by simp⟩
  · exact ⟨_, rfl⟩

theorem send_ne {entry : Writer × Bytes} (writing : terminal.writing = some entry) :
    terminal.send 1 ≠ terminal := by
  intro same
  have after := congrArg Terminal.writing same
  simp only [send, writing, write] at after
  split_ifs at after with done
  have nonempty : entry.2 ≠ [] := by
    intro empty
    simp [empty] at done
  exact drop_ne_self Nat.one_pos nonempty (congrArg Prod.snd (Option.some.inj after))

theorem turn_ne {thread : Thread} (unwritten : terminal.outbox thread ≠ []) :
    terminal.turn thread ≠ terminal := by
  intro same
  have after := congrArg (fun terminal => (terminal.outbox thread).length) same
  have positive := List.length_pos_iff_ne_nil.mpr unwritten
  cases thread <;>
    simp only [turn, write, outbox, List.length_tail] at after positive <;> omega

end Terminal

namespace Wired

variable {cipher : Monocypher} {capacity : Nat} {wired : Wired} {world : World} {fd : Fd}
  {terminal : Terminal}

@[simp] theorem updateTerminal_reading (wired : Wired) (fd : Fd) (update : Terminal → Terminal) :
    (wired.updateTerminal fd update).reading = wired.reading := by
  unfold updateTerminal
  split <;> rfl

-- The server reads one frame at a time, and has bytes of no other.
structure Orderly (wired : Wired) : Prop where
  alone : wired.sending ≠ [] → wired.reading = none
  reading : ∀ fd ∈ wired.reading, ∃ terminal, wired.terminals.lookup fd = some terminal ∧
    terminal.up.taken ++ terminal.up.transit ≠ []
  unread : ∀ fd terminal, wired.terminals.lookup fd = some terminal → wired.reading ≠ some fd →
    terminal.up.taken = []

section Orderly

theorem Orderly.update (orderly : wired.Orderly) {update : Terminal → Terminal}
    (unread : ∀ terminal, wired.terminals.lookup fd = some terminal → wired.reading ≠ some fd →
      (update terminal).up.taken = terminal.up.taken)
    (present : ∀ terminal, wired.terminals.lookup fd = some terminal →
      terminal.up.taken ++ terminal.up.transit ≠ [] →
        (update terminal).up.taken ++ (update terminal).up.transit ≠ []) :
    (wired.updateTerminal fd update).Orderly where
  alone := by simpa using orderly.alone
  reading other now := by
    rw [updateTerminal_reading] at now
    obtain ⟨terminal, found, bytes⟩ := orderly.reading other now
    rw [updateTerminal_lookup]
    by_cases same : other = fd
    · subst same
      exact ⟨update terminal, by rw [if_pos rfl, found]; rfl, present terminal found bytes⟩
    · exact ⟨terminal, by rw [if_neg same, found], bytes⟩
  unread other changed found := by
    rw [updateTerminal_reading]
    intro elsewhere
    rw [updateTerminal_lookup] at found
    split_ifs at found with same
    · subst same
      obtain ⟨terminal, before, rfl⟩ := Option.map_eq_some_iff.mp found
      rw [unread terminal before elsewhere]
      exact orderly.unread other terminal before elsewhere
    · exact orderly.unread other changed found elsewhere

theorem Orderly.updateQuiet (orderly : wired.Orderly) {update : Terminal → Terminal}
    (same : ∀ terminal, (update terminal).up = terminal.up) :
    (wired.updateTerminal fd update).Orderly :=
  orderly.update (fun terminal _ _ => by rw [same]) fun terminal _ bytes => by rwa [same]

theorem Orderly.call (event : Server.Event)
    (unread : ∀ fd terminal, wired.terminals.lookup fd = some terminal →
      fd ∈ (Server.step wired.server event).registry.clientsByFd → terminal.up.taken = []) :
    (wired.call event).Orderly where
  alone _ := rfl
  reading fd now := by cases now
  unread fd terminal found _ := by
    simp only [Wired.call, Table.lookup_restrict, decide_eq_true_eq] at found
    split_ifs at found with stays
    exact unread fd terminal found stays

theorem not_mem_removed (server : ServerViewModel) (fd : Fd) :
    fd ∉ (Server.step server (.remove fd)).registry.clientsByFd := by
  have removed : (Server.step server (.remove fd)).registry.findByFd fd = none := by
    rw [show Server.step server (.remove fd) =
      server.drop fd from Server.removeClient_state server fd, Server.findByFd_drop_eq, if_pos rfl]
  exact AList.lookup_eq_none.mp removed

theorem Orderly.step (orderly : wired.Orderly) {event : WiredEvent}
    (enabled : Enabled cipher capacity wired event) : (wiredStep cipher wired event).Orderly := by
  have free (idle : wired.Free) (fd : Fd) (terminal : Terminal)
      (found : wired.terminals.lookup fd = some terminal) : terminal.up.taken = [] :=
    orderly.unread fd terminal found (by rw [idle.1]; simp)
  cases event with
  | join fd nickname saved random =>
    refine .call _ fun other terminal found _ => ?_
    rw [Table.lookup_insert_eq] at found
    split_ifs at found with same
    · rw [← Option.some.inj found]
    · exact free enabled.1 other terminal found
  | leave fd =>
    refine .call _ fun other terminal found stays =>
      orderly.unread other terminal found fun now => ?_
    obtain idle | here := enabled.2
    · cases idle.symm.trans now
    · obtain rfl := Option.some.inj (here.symm.trans now)
      exact not_mem_removed _ _ stays
  | ban ids => exact .call _ fun other terminal found _ => free enabled other terminal found
  | poll fd =>
    obtain ⟨idle, terminal, found, bytes⟩ := enabled
    simp only [wiredStep]
    split_ifs
    · exact .call _ fun other terminal found _ => free idle other terminal found
    · refine ⟨fun busy => absurd idle.2 busy, fun other now => ?_, fun other terminal found _ =>
        free idle other terminal found⟩
      obtain rfl := Option.some.inj now
      exact ⟨terminal, found, by simp [bytes]⟩
  | serverRead count =>
    cases reading : wired.reading with
    | none =>
      simp only [wiredStep, reading]
      exact orderly
    | some fd =>
      simp only [wiredStep, reading]
      refine orderly.update (fun terminal _ elsewhere => absurd reading elsewhere)
        fun terminal _ bytes => ?_
      simpa [Pipe.read] using bytes
  | serverReceive =>
    cases reading : wired.reading with
    | none =>
      simp only [wiredStep, reading]
      exact orderly
    | some fd =>
      obtain ⟨terminal, found, -⟩ := orderly.reading fd reading
      simp only [wiredStep, reading, found]
      split_ifs
      · refine .call _ fun other changed there _ => ?_
        rw [updateTerminal_lookup] at there
        split_ifs at there with same
        · obtain ⟨before, -, rfl⟩ := Option.map_eq_some_iff.mp there
          rfl
        · exact orderly.unread other changed there fun now =>
            same (Option.some.inj (now.symm.trans reading))
      · exact orderly
  | serverSend count =>
    cases busy : wired.sending with
    | nil =>
      simp only [wiredStep, busy]
      exact orderly
    | cons entry more =>
      have resting : wired.reading = none := orderly.alone (by simp [busy])
      simp only [wiredStep, busy]
      by_cases reached : ∃ terminal ∈ wired.terminals.lookup entry.1, terminal.gone = false
      · rw [if_pos reached]
        have told : (wired.updateTerminal entry.1 (·.hear (entry.2.take count))).Orderly :=
          orderly.updateQuiet fun _ => rfl
        exact ⟨fun _ => by simp [resting], told.reading, told.unread⟩
      · rw [if_neg reached]
        exact ⟨fun _ => resting, orderly.reading, orderly.unread⟩
  | clientSend fd count =>
    refine orderly.update (fun terminal _ _ => ?_) fun terminal _ bytes => ?_
    · obtain ⟨more, sent⟩ := terminal.send_up count
      rw [sent]
    · obtain ⟨more, sent⟩ := terminal.send_up count
      rw [sent, ← List.append_assoc]
      exact List.append_ne_nil_of_left_ne_nil bytes more
  | turn fd thread => exact orderly.updateQuiet fun terminal => terminal.turn_up thread
  | clientReceive fd => exact orderly.updateQuiet fun terminal => terminal.receive_up
  | hangUp fd | command fd command | clientRead fd count => exact orderly.updateQuiet fun _ => rfl

theorem reachable_orderly (reachable : WiredReachable cipher capacity wired) : wired.Orderly := by
  refine reachable.invariant Orderly ?_ fun wired event orderly allowed => orderly.step allowed.1
  rintro wired rfl
  refine ⟨fun _ => rfl, fun fd now => ?_, fun fd terminal found => ?_⟩
  · cases now
  · simp at found

end Orderly

end Wired

/-- The client can neither be told anything nor get rid of what it writes before it reads on. -/
def Terminal.Stuck (capacity : Nat) (terminal : Terminal) : Prop :=
  terminal.gone = false ∧ capacity ≤ terminal.down.transit.length ∧
    capacity ≤ terminal.up.transit.length ∧
    ¬ terminal.Listening ∧ terminal.writing ≠ none

instance (capacity : Nat) (terminal : Terminal) : Decidable (terminal.Stuck capacity) :=
  inferInstanceAs (Decidable (_ ∧ _))

namespace Wired

variable {cipher : Monocypher} {capacity : Nat} {wired : Wired} {world : World} {fd : Fd}
  {terminal : Terminal}

def Jammed (capacity : Nat) (wired : Wired) (fd : Fd) : Prop :=
  (∃ entry ∈ wired.sending.head?, entry.1 = fd) ∧ ∃ terminal ∈ wired.terminals.lookup fd,
    terminal.Stuck capacity

instance (capacity : Nat) (wired : Wired) (fd : Fd) : Decidable (wired.Jammed capacity fd) :=
  inferInstanceAs (Decidable (_ ∧ _))

-- Steps that nobody has to ask for. The server removes a client that is gone when it finds it so.
def Own (wired : Wired) : WiredEvent → Prop
  | .join .. | .hangUp _ | .ban _ | .command .. => False
  | .leave fd => ∃ terminal ∈ wired.terminals.lookup fd, terminal.gone
  | .poll _ | .serverRead _ | .serverReceive | .serverSend _ | .turn .. | .clientSend ..
  | .clientRead ..
  | .clientReceive _ => True

def Proceeds (cipher : Monocypher) (capacity : Nat) (wired : Wired) : Prop :=
  ∃ event, wired.Own event ∧ Enabled cipher capacity wired event ∧
    wiredStep cipher wired event ≠ wired

section Proceeds

theorem updateTerminal_ne (found : wired.terminals.lookup fd = some terminal)
    {update : Terminal → Terminal}
    (changed : update terminal ≠ terminal) : wired.updateTerminal fd update ≠ wired := by
  intro same
  have after := congrArg (fun wired => wired.terminals.lookup fd) same
  simp only [updateTerminal_lookup, if_true, found, Option.map_some, Option.some.injEq] at after
  exact changed after

theorem forall_terminal (found : wired.terminals.lookup fd = some terminal)
    {holds : Terminal → Prop}
    (here : holds terminal) : ∀ other ∈ wired.terminals.lookup fd, holds other := by
  intro other there
  rwa [← Option.some.inj (found.symm.trans there)]

theorem proceeds_write (found : wired.terminals.lookup fd = some terminal)
    (alive : terminal.gone = false)
    (room : terminal.up.transit.length < capacity) (writing : terminal.writing ≠ none) :
    wired.Proceeds cipher capacity := by
  obtain ⟨entry, midway⟩ := Option.ne_none_iff_exists'.mp writing
  exact ⟨.clientSend fd 1, trivial, ⟨Nat.one_pos, forall_terminal found ⟨alive, room⟩⟩,
    updateTerminal_ne found (Terminal.send_ne midway)⟩

theorem proceeds_turn (found : wired.terminals.lookup fd = some terminal)
    (alive : terminal.gone = false)
    (free : terminal.writing = none) {thread : Thread} (unwritten : terminal.outbox thread ≠ []) :
    wired.Proceeds cipher capacity :=
  ⟨.turn fd thread, trivial, forall_terminal found ⟨alive, free⟩,
    updateTerminal_ne found (Terminal.turn_ne unwritten)⟩

theorem read_ne {pipe : Pipe} (asks : wanted pipe.taken ≠ 0) (bytes : pipe.transit ≠ []) :
    pipe.read 1 ≠ pipe := by
  intro same
  have given : 0 < min 1 (wanted pipe.taken) := by omega
  exact drop_ne_self given bytes (congrArg Pipe.transit same)

theorem proceeds_listen (found : wired.terminals.lookup fd = some terminal)
    (alive : terminal.gone = false)
    (listening : terminal.Listening)
    (bytes : wanted terminal.down.taken = 0 ∨ terminal.down.transit ≠ []) :
    wired.Proceeds cipher capacity := by
  by_cases complete : wanted terminal.down.taken = 0
  · refine ⟨.clientReceive fd, trivial, forall_terminal found ⟨alive, listening⟩,
      updateTerminal_ne found ?_⟩
    intro same
    have after := congrArg (fun terminal => wanted terminal.down.taken) same
    have cleared : (terminal.receive cipher).down.taken = [] := by
      unfold Terminal.receive Terminal.handle
      split_ifs <;> rfl
    simp only [cleared, complete] at after
    cases after
  · refine ⟨.clientRead fd 1, trivial, ⟨Nat.one_pos, forall_terminal found ⟨alive, listening⟩⟩,
      updateTerminal_ne found fun same => ?_⟩
    exact read_ne complete (bytes.resolve_left complete) (congrArg Terminal.down same)

theorem call_ne (found : wired.terminals.lookup fd = some terminal) {event : Server.Event}
    (dropped : fd ∉ (Server.step wired.server event).registry.clientsByFd) :
    wired.call event ≠ wired := by
  intro same
  have after := congrArg (fun wired => wired.terminals.lookup fd) same
  simp only [Wired.call, Table.lookup_restrict, decide_eq_true_eq, found] at after
  split_ifs at after with stays
  exact dropped stays

theorem proceeds_leave (found : wired.terminals.lookup fd = some terminal)
    (gone : terminal.gone = true)
    (resting : wired.sending = []) (turned : wired.reading = none ∨ wired.reading = some fd) :
    wired.Proceeds cipher capacity :=
  ⟨.leave fd, ⟨terminal, found, gone⟩, ⟨resting, turned⟩,
    call_ne found (not_mem_removed wired.server fd)⟩

theorem proceeds_poll (shown : wired.Shows world) (reachable : Reachable cipher world)
    (free : wired.Free)
    (found : wired.terminals.lookup fd = some terminal) (bytes : terminal.up.transit ≠ []) :
    wired.Proceeds cipher capacity := by
  refine ⟨.poll fd, trivial, ⟨free, terminal, found, bytes⟩, fun same => ?_⟩
  simp only [wiredStep] at same
  split_ifs at same with banned
  · obtain ⟨sender, listed, silenced⟩ := banned
    have sane := wild_sane (wild_of_reachable reachable)
    have short :=
      (Server.reachable_recordFits sane.reachable fd sender (shown.server ▸ listed)).short
    have removal := Server.handleClientData_banned listed short
      (by simpa [ServerViewModel.isBanned] using silenced) none
    have dropped :
        Server.step wired.server (.data fd none) = Server.step wired.server (.remove fd) :=
      congrArg Outcome.state removal
    exact call_ne found (dropped ▸ not_mem_removed wired.server fd) same
  · cases (congrArg Wired.reading same).trans free.1

theorem proceeds_send {entry : Fd × Bytes} {more : List (Fd × Bytes)}
    (busy : wired.sending = entry :: more) (room : ∀ terminal ∈ wired.terminals.lookup entry.1,
      terminal.gone ∨ terminal.down.transit.length < capacity) :
    wired.Proceeds cipher capacity := by
  refine ⟨.serverSend 1, trivial, ⟨Nat.one_pos, fun head first => ?_⟩, fun same => ?_⟩
  · rw [busy] at first
    rw [← Option.some.inj first]
    exact room
  · have after := congrArg Wired.sending same
    simp only [wiredStep, busy] at after
    split_ifs at after with reached done
    · exact List.cons_ne_self entry more after.symm
    · have nonempty : entry.2 ≠ [] := by
        intro empty
        simp [empty] at done
      exact drop_ne_self Nat.one_pos nonempty (congrArg Prod.snd (List.cons.inj after).1)
    · exact List.cons_ne_self entry more after.symm

theorem proceeds_reading (shown : wired.Shows world) (orderly : wired.Orderly) (room : 0 < capacity)
    (reading : wired.reading = some fd) : wired.Proceeds cipher capacity := by
  have resting : wired.sending = [] := by
    by_contra busy
    cases (orderly.alone busy).symm.trans reading
  obtain ⟨terminal, found, bytes⟩ := orderly.reading fd reading
  obtain ⟨node, -, here⟩ := shown.node found
  by_cases complete : wanted terminal.up.taken = 0
  · refine ⟨.serverReceive, trivial, resting, fun same => ?_⟩
    simp only [wiredStep, reading, found, if_pos complete] at same
    cases (congrArg Wired.reading same).trans reading
  · by_cases arrived : terminal.up.transit = []
    · rw [arrived, List.append_nil] at bytes
      have rest := here.up.rest_ahead bytes complete
      rw [arrived, List.nil_append] at rest
      have writing : terminal.writing ≠ none := by
        intro free
        exact rest (Terminal.left_free free)
      cases gone : terminal.gone with
      | true => exact proceeds_leave found gone resting (.inr reading)
      | false => exact proceeds_write found gone (by rwa [arrived]) writing
    · refine ⟨.serverRead 1, trivial, Nat.one_pos, ?_⟩
      simp only [wiredStep, reading]
      exact updateTerminal_ne found fun same => read_ne complete arrived (congrArg Terminal.up same)

theorem proceeds_free (shown : wired.Shows world) (reachable : Reachable cipher world)
    (orderly : wired.Orderly)
    (room : 0 < capacity) (free : wired.Free) (found : wired.terminals.lookup fd = some terminal)
    (busy : ¬ terminal.Idle) : wired.Proceeds cipher capacity := by
  obtain ⟨node, -, here⟩ := shown.node found
  have taken : terminal.up.taken = [] := orderly.unread fd terminal found (by rw [free.1]; simp)
  by_cases arrived : terminal.up.transit = []
  · cases gone : terminal.gone with
    | true => exact proceeds_leave found gone free.2 (.inl free.1)
    | false =>
      by_cases quiet : terminal.writing = none
      · by_cases typed : terminal.typing = []
        · by_cases answered : terminal.replying = []
          · have listening : terminal.Listening := ⟨answered, by simp [quiet]⟩
            refine proceeds_listen found gone listening ?_
            by_contra waiting
            obtain ⟨asks, nothing⟩ := not_or.mp waiting
            have empty := not_not.mp nothing
            -- with nothing ahead of it, the client is not in the middle of a frame
            have between : terminal.down.taken = [] := by
              by_contra begun
              refine (here.down gone).rest_ahead begun asks ?_
              rw [empty, pending_nil free.2, List.append_nil]
            refine busy ⟨gone, typed, answered, quiet, ?_, ?_⟩
            · exact congrArg₂ Pipe.mk taken arrived
            · exact congrArg₂ Pipe.mk between empty
          · have unwritten : terminal.outbox .receiver ≠ [] := answered
            exact proceeds_turn found gone quiet unwritten
        · have unwritten : terminal.outbox .input ≠ [] := typed
          exact proceeds_turn found gone quiet unwritten
      · exact proceeds_write found gone (by rwa [arrived]) quiet
  · exact proceeds_poll shown reachable free found arrived

theorem proceeds_sending (room : 0 < capacity) {entry : Fd × Bytes} {more : List (Fd × Bytes)}
    (busy : wired.sending = entry :: more) :
    wired.Proceeds cipher capacity ∨ wired.Jammed capacity entry.1 := by
  by_cases reached : ∃ terminal ∈ wired.terminals.lookup entry.1,
      terminal.gone = false ∧ capacity ≤ terminal.down.transit.length
  · obtain ⟨terminal, found, alive, full⟩ := reached
    have bytes : terminal.down.transit ≠ [] := by
      intro empty
      rw [empty] at full
      exact absurd room (Nat.not_lt.mpr full)
    by_cases listening : terminal.Listening
    · exact .inl (proceeds_listen found alive listening (.inr bytes))
    by_cases writing : terminal.writing = none
    · have unwritten : terminal.outbox .receiver ≠ [] :=
        fun none => listening ⟨none, by simp [writing]⟩
      exact .inl (proceeds_turn found alive writing unwritten)
    by_cases space : terminal.up.transit.length < capacity
    · exact .inl (proceeds_write found alive space writing)
    · refine .inr ⟨⟨entry, by rw [busy]; rfl, rfl⟩, terminal, found, alive, full,
        Nat.not_lt.mp space, listening, writing⟩
  · refine .inl (proceeds_send busy fun terminal found => ?_)
    cases gone : terminal.gone with
    | true => exact .inl rfl
    | false => exact .inr (Nat.not_le.mp fun full => reached ⟨terminal, found, gone, full⟩)

end Proceeds

end Wired

open Wired

/--
As long as anything is being read or written or on its way, some thread gets further, unless the
server is writing to a client whose stream is full and whose reading thread is itself waiting to
write to the server, whose stream is full as well.
-/
theorem proceeds_unless_jammed {cipher : Monocypher} {capacity : Nat} {wired : Wired}
    (room : 0 < capacity) (reachable : WiredReachable cipher capacity wired) :
    wired.Idle ∨ wired.Proceeds cipher capacity ∨ ∃ fd, wired.Jammed capacity fd := by
  obtain ⟨world, run, shown⟩ := wired_shows reachable
  have orderly := reachable_orderly reachable
  cases busy : wired.sending with
  | cons entry more => exact .inr ((proceeds_sending room busy).imp_right fun jammed => ⟨_, jammed⟩)
  | nil =>
    cases reading : wired.reading with
    | some fd => exact .inr (.inl (proceeds_reading shown orderly room reading))
    | none =>
      by_cases idle : ∀ terminal ∈ wired.terminals.values, terminal.Idle
      · exact .inl ⟨⟨reading, busy⟩, idle⟩
      · simp only [not_forall] at idle
        obtain ⟨terminal, member, unfinished⟩ := idle
        obtain ⟨fd, found⟩ := Table.mem_values.mp member
        exact .inr (.inl (proceeds_free shown run orderly room ⟨reading, busy⟩ found unfinished))

theorem proceeds_unless_jammed_crossed :
    crossed.Idle ∨ crossed.Proceeds transparent 8 ∨ ∃ fd, crossed.Jammed 8 fd :=
  proceeds_unless_jammed (by decide) crossed_reachable

namespace Wired

variable {cipher : Monocypher} {capacity : Nat} {wired : Wired} {fd : Fd}

theorem Jammed.update (jammed : wired.Jammed capacity fd) {other : Fd}
    {update : Terminal → Terminal}
    (keeps : ∀ terminal, wired.terminals.lookup other = some terminal → other = fd →
      terminal.Stuck capacity → (update terminal).Stuck capacity) :
    (wired.updateTerminal other update).server = wired.server ∧
      (wired.updateTerminal other update).Jammed capacity fd := by
  obtain ⟨writing, terminal, found, stuck⟩ := jammed
  refine ⟨updateTerminal_server _ _ _, by rwa [updateTerminal_sending], ?_⟩
  rw [updateTerminal_lookup]
  by_cases same : fd = other
  · subst same
    exact ⟨update terminal, by rw [if_pos rfl, found]; rfl, keeps terminal found rfl stuck⟩
  · exact ⟨terminal, by rw [if_neg same]; exact found, stuck⟩

theorem Jammed.step (jammed : wired.Jammed capacity fd) (orderly : wired.Orderly)
    {event : WiredEvent}
    (enabled : Enabled cipher capacity wired event) (stays : event ≠ .hangUp fd) :
    (wiredStep cipher wired event).server = wired.server ∧
      (wiredStep cipher wired event).Jammed capacity fd := by
  obtain ⟨entry, first, target⟩ := jammed.1
  obtain ⟨terminal, found, alive, full, choked, deaf, writing⟩ := jammed.2
  have busy : wired.sending ≠ [] := by
    intro resting
    rw [resting] at first
    cases first
  cases event with
  | join | poll => exact absurd enabled.1.2 busy
  | leave => exact absurd enabled.1 busy
  | ban => exact absurd enabled.2 busy
  | serverReceive => exact absurd enabled busy
  | hangUp other =>
    exact jammed.update fun _ _ same _ => absurd (congrArg WiredEvent.hangUp same) stays
  | serverRead count =>
    simp only [wiredStep, orderly.alone busy]
    exact ⟨trivial, jammed⟩
  | serverSend count =>
    obtain ⟨positive, room⟩ := enabled
    have space := room entry first terminal (target ▸ found)
    rw [alive] at space
    have fits := space.resolve_left (by simp)
    omega
  | command other command => exact jammed.update fun terminal _ _ stuck => stuck
  | turn other thread =>
    refine jammed.update fun terminal there same stuck => ?_
    exact absurd (enabled terminal there).2 stuck.2.2.2.2
  | clientSend other count =>
    obtain ⟨positive, room⟩ := enabled
    refine jammed.update fun terminal there same stuck => ?_
    have space := (room terminal there).2
    have choked := stuck.2.2.1
    omega
  | clientRead other count =>
    refine jammed.update fun terminal there same stuck => ?_
    exact absurd (enabled.2 terminal there).2 stuck.2.2.2.1
  | clientReceive other =>
    refine jammed.update fun terminal there same stuck => ?_
    exact absurd (enabled terminal there).2 stuck.2.2.2.1

end Wired

/--
A jam lasts: until that client hangs up, the server does nothing for anybody, whatever the others do
and whoever joins or types.
-/
theorem jam_lasts {cipher : Monocypher} {capacity : Nat} {wired : Wired} {fd : Fd}
    (reachable : WiredReachable cipher capacity wired) (jammed : wired.Jammed capacity fd)
    {events : List WiredEvent}
    (admissible : Runs.Admissible
      (fun wired event => Enabled cipher capacity wired event ∧ event ≠ .hangUp fd)
      (wiredStep cipher) wired events) :
    let later := events.foldl (wiredStep cipher) wired
    later.server = wired.server ∧ later.Jammed capacity fd := by
  have all : ∀ now, Runs.Reachable (· = wired) (fun wired event =>
      Enabled cipher capacity wired event ∧ event ≠ .hangUp fd) (wiredStep cipher) now →
        now.Orderly ∧ now.server = wired.server ∧ now.Jammed capacity fd := by
    intro now run
    refine run.invariant (fun now => now.Orderly ∧ now.server = wired.server ∧
      now.Jammed capacity fd) ?_ ?_
    · rintro first rfl
      exact ⟨reachable_orderly reachable, rfl, jammed⟩
    · rintro now event ⟨orderly, same, jammed⟩ ⟨enabled, stays⟩
      obtain ⟨kept, lasting⟩ := jammed.step orderly enabled stays
      exact ⟨orderly.step enabled, kept.trans same, lasting⟩
  exact (all _ (Runs.Reachable.foldl (.start rfl) admissible)).2

theorem jam_lasts_crossed :
    let later := [.clientReceive 6, .clientSend 6 8,
      .hangUp 6].foldl (wiredStep transparent) crossed
    later.server = crossed.server ∧ later.Jammed 8 5 :=
  jam_lasts crossed_reachable (by decide +kernel)
    ⟨⟨by decide +kernel, by simp⟩, ⟨by decide +kernel, by simp⟩,
      ⟨by decide +kernel, by simp⟩, trivial⟩

end ModbusChat.System
