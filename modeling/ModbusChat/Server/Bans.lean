import ModbusChat.Server.Answers

set_option autoImplicit false

namespace ModbusChat.Server

open BigEndian Effects Wire

-- A ban leaves the client in the registry; it goes with the next event on its connection.

/-- The calls of the event loop before shutdown: it polls the connections in the registry. -/
def Served (server : ServerViewModel) : Event → Prop
  | .accept fd _ => fd ∉ server.registry.clientsByFd
  | .remove fd | .data fd _ => fd ∈ server.registry.clientsByFd
  | .ban _ => True
  | .requestStop | .disconnectAll => False

instance Served.decidable (server : ServerViewModel) :
    (event : Event) → Decidable (Served server event)
  | .accept fd _ => inferInstanceAs (Decidable (fd ∉ server.registry.clientsByFd))
  | .remove fd | .data fd _ => inferInstanceAs (Decidable (fd ∈ server.registry.clientsByFd))
  | .ban _ => .isTrue trivial
  | .requestStop | .disconnectAll => .isFalse id

theorem Served.allowed {server : ServerViewModel} {event : Event} (served : Served server event) :
    Allowed server event := by
  cases event with
  | accept fd error => exact served
  | _ => trivial

theorem Served.connected {server : ServerViewModel} {event : Event} (served : Served server event)
    {fd : Fd} (touches : event.connection? = some fd) :
    ∃ record, server.registry.findByFd fd = some record := by
  cases event with
  | remove other | data other incoming =>
    obtain rfl := Option.some.inj touches
    exact Table.mem_iff_lookup.mp served
  | _ => cases touches

theorem step_elsewhere {server : ServerViewModel} {event : Event} {fd : Fd}
    (served : Served server event) (elsewhere : event.connection? ≠ some fd)
    (notAccepted : ∀ error, event ≠ .accept fd error) :
    (step server event).registry.findByFd fd = server.registry.findByFd fd := by
  cases event with
  | accept other error =>
    have apart : fd ≠ other := fun same => notAccepted error (same ▸ rfl)
    rw [step_accept]
    split_ifs
    · rfl
    · rw [ServerViewModel.enroll, ClientRegistry.findByFd_add, if_neg apart,
        allocateClientId_registry]
  | remove other =>
    have apart : fd ≠ other := fun same => elsewhere (same ▸ rfl)
    rw [step_remove, findByFd_drop_eq, if_neg apart]
  | data other incoming =>
    have apart : fd ≠ other := fun same => elsewhere (same ▸ rfl)
    rcases step_data server other incoming with same | dropped | ⟨nickname, -, may, renamed⟩
    · rw [same]
    · rw [dropped, findByFd_drop_eq, if_neg apart]
    · obtain ⟨record, found, -⟩ := may.connected
      rw [renamed, ServerViewModel.rename, (ClientRegistry.setNickname_some nickname found).1,
        if_neg apart]
  | ban ids => rw [step_ban, insertBans_registry]
  | requestStop | disconnectAll => exact served.elim

theorem step_sameId {server : ServerViewModel} {event : Event} {fd : Fd}
    {record later : ClientRecord}
    (served : Served server event) (found : server.registry.findByFd fd = some record)
    (still : (step server event).registry.findByFd fd = some later) : later.id = record.id := by
  by_cases touches : event.connection? = some fd
  · cases event with
    | remove other =>
      obtain rfl := Option.some.inj touches
      rw [step_remove, findByFd_drop_eq, if_pos rfl] at still
      cases still
    | data other incoming =>
      obtain rfl := Option.some.inj touches
      rcases step_data server other incoming with same | dropped | ⟨nickname, -, -, renamed⟩
      · rw [same, found] at still
        rw [Option.some.inj still]
      · rw [dropped, findByFd_drop_eq, if_pos rfl] at still
        cases still
      · rw [renamed, ServerViewModel.rename, (ClientRegistry.setNickname_some nickname found).1,
          if_pos rfl] at still
        rw [← Option.some.inj still]
    | _ => cases touches
  · have notAccepted (error : String) : event ≠ .accept fd error := by
      rintro rfl
      exact absurd (served.allowed.fresh.symm.trans found) (by simp)
    rw [step_elsewhere served touches notAccepted, found] at still
    rw [Option.some.inj still]

theorem takeFree_subset (banned : Finset UInt32) :
    ∀ (free : List UInt32) (sorted : free.Pairwise (· < ·)) (id : UInt32),
      id ∈ (takeFree banned free sorted).2 → id ∈ free := by
  intro free
  induction free with
  | nil =>
    intro _ id member
    exact absurd member (OrderedSet.notMem_empty id)
  | cons first rest ih =>
    intro sorted id member
    unfold takeFree at member
    split_ifs at member
    · exact List.mem_cons_of_mem _ (ih sorted.tail id member)
    · exact List.mem_cons_of_mem _ member

theorem allocateClientId_freeIds (server : ServerViewModel) {id : UInt32}
    (free : id ∈ server.allocateClientId.2.freeIds) : id ∈ server.freeIds := by
  have taken := takeFree_subset server.bannedIds server.freeIds.elements server.freeIds.sorted id
  unfold ServerViewModel.allocateClientId at free
  generalize takeFree server.bannedIds server.freeIds.elements server.freeIds.sorted =
    result at taken free
  obtain ⟨_ | first, rest⟩ := result <;> exact taken free

def BannedNotFree (server : ServerViewModel) : Prop :=
  ∀ id ∈ server.bannedIds, id ∉ server.freeIds

theorem drop_bannedNotFree {server : ServerViewModel} (apart : BannedNotFree server) (fd : Fd) :
    BannedNotFree (server.drop fd) := by
  intro id banned free
  rw [drop_bannedIds] at banned
  cases found : server.registry.findByFd fd with
  | none =>
    rw [drop_none found] at free
    exact apart id banned free
  | some record =>
    rw [drop_some found] at free
    rcases mem_releaseClientId_freeIds.mp free with old | ⟨rfl, released⟩
    · exact apart id banned old
    · exact released banned

theorem insertBans_bannedNotFree (ids : List UInt32) {server : ServerViewModel}
    (apart : BannedNotFree server) : BannedNotFree (insertBans ids server).2 := by
  induction ids generalizing server with
  | nil => exact apart
  | cons id ids ih =>
    by_cases zero : id = 0
    · simpa only [insertBans, if_pos zero] using ih apart
    · simp only [insertBans, if_neg zero]
      refine ih fun other banned free => ?_
      obtain ⟨differs, old⟩ := OrderedSet.mem_erase.mp free
      rcases Finset.mem_insert.mp banned with same | before
      · exact differs same
      · exact apart other before old

theorem step_bannedNotFree {server : ServerViewModel} (apart : BannedNotFree server)
    (event : Event) :
    BannedNotFree (step server event) := by
  cases event with
  | accept fd error =>
    rw [step_accept]
    split_ifs
    · exact apart
    · intro id banned free
      simp only [ServerViewModel.enroll, allocateClientId_bannedIds] at banned
      exact apart id banned (allocateClientId_freeIds server free)
  | remove fd => exact step_remove server fd ▸ drop_bannedNotFree apart fd
  | data fd incoming =>
    rcases step_data server fd incoming with same | dropped | ⟨nickname, -, -, renamed⟩
    · rwa [same]
    · exact dropped ▸ drop_bannedNotFree apart fd
    · exact renamed ▸ apart
  | ban ids => exact step_ban server ids ▸ insertBans_bannedNotFree ids apart
  | requestStop => exact apart
  | disconnectAll =>
    rw [step_disconnectAll]
    exact List.foldlRecOn (motive := BannedNotFree) _ _ apart
      fun server apart fd _ => drop_bannedNotFree apart fd

theorem reachable_bannedNotFree {server : ServerViewModel} (reachable : Reachable server) :
    BannedNotFree server := by
  refine reachable.invariant BannedNotFree ?_ fun server event apart _ =>
    step_bannedNotFree apart event
  rintro _ rfl id banned
  simp at banned

theorem insertBans_freeIds (ids : List UInt32) (server : ServerViewModel) :
    ∀ id ∈ (insertBans ids server).2.freeIds, id ∈ server.freeIds := by
  induction ids generalizing server with
  | nil => exact fun _ free => free
  | cons first ids ih =>
    by_cases zero : first = 0
    · simpa only [insertBans, if_pos zero] using ih server
    · simp only [insertBans, if_neg zero]
      exact fun id free => (OrderedSet.mem_erase.mp (ih _ id free)).2

theorem foldl_ban (lists : List (List UInt32)) (server : ServerViewModel) :
    let after := (lists.map Event.ban).foldl step server
    after.registry = server.registry ∧ (∀ id ∈ after.freeIds, id ∈ server.freeIds) ∧
      ∀ id, id ∈ after.bannedIds ↔ id ∈ server.bannedIds ∨ id ≠ 0 ∧ ∃ ids ∈ lists, id ∈ ids := by
  induction lists generalizing server with
  | nil => simp
  | cons ids lists ih =>
    obtain ⟨registry, free, banned⟩ := ih (step server (.ban ids))
    rw [List.map_cons, List.foldl_cons]
    refine ⟨?_, fun id later => ?_, fun id => ?_⟩
    · rw [registry, step_ban, insertBans_registry]
    · refine insertBans_freeIds ids server id ?_
      rw [← step_ban]
      exact free id later
    · rw [banned, step_ban, insertBans_bannedIds]
      simp only [Finset.mem_union, List.mem_toFinset, List.mem_filter, decide_eq_true_eq,
        List.exists_mem_cons_iff]
      tauto

/-- What becomes of a banned client: it waits, or its connection is closed once and for all. -/
inductive Silenced (server : ServerViewModel) (fd : Fd) (record : ClientRecord)
    (events : List Event) :
    Prop
  | waiting (untouched : ∀ event ∈ events, event.connection? ≠ some fd)
      (stays : (events.foldl step server).registry.findByFd fd = some record)
  | removed {before after : List Event} {event : Event} (split : events = before ++ event :: after)
      (untouched : ∀ earlier ∈ before, earlier.connection? ≠ some fd)
      (touches : event.connection? = some fd)
      (removal : OnlyRemoves (before.foldl step server) fd record event)
      (gone : (∀ error, .accept fd error ∉ after) →
        (∀ later ∈ after, later.connection? ≠ some fd) ∧
          (events.foldl step server).registry.findByFd fd = none)

theorem closed_stays {server : ServerViewModel} {fd : Fd} {events : List Event}
    (closed : server.registry.findByFd fd = none)
    (served : Runs.Admissible Served step server events)
    (notAccepted : ∀ error, .accept fd error ∉ events) :
    (∀ event ∈ events, event.connection? ≠ some fd) ∧
      (events.foldl step server).registry.findByFd fd = none := by
  induction events generalizing server with
  | nil => exact ⟨by simp, closed⟩
  | cons event events ih =>
    have elsewhere : event.connection? ≠ some fd := by
      intro touches
      obtain ⟨record, found⟩ := served.1.connected touches
      simp [closed] at found
    have still : (step server event).registry.findByFd fd = none := by
      rw [step_elsewhere served.1 elsewhere fun error same =>
        notAccepted error (same ▸ List.mem_cons_self), closed]
    obtain ⟨untouched, last⟩ := ih still served.2 fun error member =>
      notAccepted error (List.mem_cons_of_mem _ member)
    exact ⟨List.forall_mem_cons.mpr ⟨elsewhere, untouched⟩, last⟩

theorem Silenced.cons {server : ServerViewModel} {fd : Fd} {record : ClientRecord} {event : Event}
    {events : List Event} (elsewhere : event.connection? ≠ some fd)
    (rest : Silenced (step server event) fd record events) :
    Silenced server fd record (event :: events) := by
  cases rest with
  | waiting untouched stays =>
    exact .waiting (List.forall_mem_cons.mpr ⟨elsewhere, untouched⟩) stays
  | removed split untouched touches removal gone =>
    exact .removed (by rw [split, List.cons_append])
      (List.forall_mem_cons.mpr ⟨elsewhere, untouched⟩)
      touches removal gone

theorem Silenced.of_banned {server : ServerViewModel} {fd : Fd} {record : ClientRecord}
    {events : List Event} (reachable : Runs.Reachable Initial Served step server)
    (connected : server.registry.findByFd fd = some record) (banned : record.id ∈ server.bannedIds)
    (served : Runs.Admissible Served step server events) : Silenced server fd record events := by
  induction events generalizing server with
  | nil => exact .waiting (by simp) connected
  | cons event events ih =>
    by_cases touches : event.connection? = some fd
    · have fits := reachable_recordFits (reachable.weaken fun _ _ => Served.allowed)
      have removal := banned_onlyRemoves fits connected banned touches
      refine .removed rfl (List.forall_mem_nil _) touches removal fun notAccepted => ?_
      obtain ⟨others, -, -, run⟩ := removal
      have closed : (step server event).registry.findByFd fd = none := by
        rw [step, run, findByFd_drop_eq, if_pos rfl]
      exact closed_stays closed served.2 notAccepted
    · refine .cons touches
        (ih (reachable.next served.1) ?_ (step_bannedIds server event banned) served.2)
      rw [step_elsewhere served.1 touches, connected]
      rintro error rfl
      exact absurd (Table.mem_iff_lookup.mpr ⟨record, connected⟩) served.1

/-- In every run on from the ban, the client is silenced and its id is not given away again. -/
theorem banned_client_silenced {server : ServerViewModel} {fd : Fd} {record : ClientRecord}
    {events : List Event} (reachable : Runs.Reachable Initial Served step server)
    (connected : server.registry.findByFd fd = some record) (banned : record.id ∈ server.bannedIds)
    (served : Runs.Admissible Served step server events) :
    Silenced server fd record events ∧ record.id ∉ (events.foldl step server).freeIds := by
  refine ⟨.of_banned reachable connected banned served, ?_⟩
  have apart := reachable_bannedNotFree (reachable.weaken fun _ _ => Served.allowed)
  have last : BannedNotFree (events.foldl step server) ∧
      record.id ∈ (events.foldl step server).bannedIds := by
    refine List.foldlRecOn (motive := fun server =>
      BannedNotFree server ∧ record.id ∈ server.bannedIds)
      _ _ ⟨apart, banned⟩ fun server before event _ => ?_
    exact ⟨step_bannedNotFree before.1 event, step_bannedIds server event before.2⟩
  exact last.1 record.id last.2

def firstBanned : ServerViewModel :=
  [Event.accept 3 "", .accept 4 "", .accept 5 "", .ban [1]].foldl step {}

-- The first client tries to register, and its descriptor goes to a new client.
theorem banned_client_silenced_firstBanned :
    let events := [Event.remove 5, .data 3 (some (makeFrame .register (stringBytes (ascii "al")))),
      .accept 3 ""]
    Silenced firstBanned 3 { fd := 3, id := 1 } events ∧
      1 ∉ (events.foldl step firstBanned).freeIds := by
  have reachable : Runs.Reachable Initial Served step firstBanned :=
    Runs.Reachable.foldl (.start rfl) (by decide +kernel)
  have connected : firstBanned.registry.findByFd 3 = some { fd := 3, id := 1 } := by decide +kernel
  exact banned_client_silenced reachable connected (by decide +kernel) (by decide +kernel)

-- The handlers leave banned clients out, the announcements of who comes and goes do not.

-- The call tells the other clients that a client has joined, left or taken a name.
inductive Announces (server : ServerViewModel) : Event → Fd → Prop
  | joined {fd : Fd} {error : String} (accepted : ¬ fd < 0) : Announces server (.accept fd error) fd
  | removed {fd : Fd} {record : ClientRecord} (found : server.registry.findByFd fd = some record) :
      Announces server (.remove fd) fd
  | silenced {fd : Fd} {record : ClientRecord} {incoming : Option Frame}
      (found : server.registry.findByFd fd = some record) (banned : record.id ∈ server.bannedIds) :
      Announces server (.data fd incoming) fd
  | closed {fd : Fd} {record : ClientRecord} (found : server.registry.findByFd fd = some record)
      (running : server.running = true) : Announces server (.data fd none) fd
  | named {fd : Fd} {frame : Frame} {nickname : Bytes}
      (decoded : decodeAppMessage frame = .ok { type := .register, payload := .register nickname })
      (may : MayRegister server fd nickname) : Announces server (.data fd (some frame)) fd

-- Nobody but the client in question is banned when the server announces something.
def Undisturbed (server : ServerViewModel) (event : Event) : Prop :=
  ∀ fd, Announces server event fd → ∀ other record, other ≠ fd →
    server.registry.findByFd other = some record → record.id ∉ server.bannedIds

section Targets

variable {server : ServerViewModel} {fd : Fd}

theorem stranger_dispatch (missing : server.registry.findByFd fd = none) (message : AppMessage) :
    ∀ sent ∈ sends ((dispatch createMessageDispatcher fd message).run server).output,
      sent.1 = fd := by
  obtain ⟨type, payload⟩ := message
  have silent (sent : Fd × MsgType × Bytes) (member : sent ∈ sends []) : sent.1 = fd := by
    simp [sends] at member
  have unsupported (text : Bytes) (sent : Fd × MsgType × Bytes)
      (member : sent ∈ sends ((sendError fd text).run server).output) : sent.1 = fd :=
    sendError_sent member ▸ rfl
  cases type
  case register =>
    cases payload with
    | register nickname =>
      simpa [dispatch, createMessageDispatcher, registerMessageHandler, registerNickname, missing]
        using silent
    | _ => exact silent
  case chat | keyOffer | roomKeyOffer =>
    cases payload with
    | chat chat =>
      rw [dispatch_chat fd chat (by simp)]
      simpa [relay, missing] using silent
    | _ => exact silent
  case listUsers =>
    intro sent member
    obtain ⟨_, -, rfl⟩ := listUsers_sent member
    rfl
  all_goals exact unsupported _

theorem stranger_sent (missing : server.registry.findByFd fd = none) {incoming : Option Frame}
    {sent : Fd × MsgType × Bytes}
    (member : sent ∈ sends ((handleClientData fd incoming).run server).output) : sent.1 = fd := by
  have free : ¬ ∃ client ∈ server.registry.findByFd fd, server.isBanned client.id := by
    simp [missing]
  cases incoming with
  | none =>
    rw [handleClientData_closed free] at member
    split_ifs at member
    · rw [removeClient_missing missing] at member
      simp [sends] at member
    · simp [sends] at member
  | some frame =>
    cases decoded : decodeAppMessage frame with
    | error failure =>
      rw [handleClientData_undecoded free decoded] at member
      obtain ⟨text, rfl⟩ := catchException_sent member
      rfl
    | ok message =>
      rw [handleClientData_run free decoded] at member
      exact caught_sent (stranger_dispatch missing message) (fun _ => rfl) sent member

theorem mem_sends_removal {record : ClientRecord} {event : Event}
    (removal : OnlyRemoves server fd record event) {other : Fd} :
    (∃ sent ∈ sends (event.action.run server).output, sent.1 = other) ↔
      other ∈ server.registry.allFds ∧ other ≠ fd := by
  obtain ⟨others, -, remaining, run⟩ := removal
  rw [run, ← remaining]
  change (∃ sent ∈ sends (others.map _), _) ↔ _
  simp [sends_map_send]

theorem mem_sends_accept {error : String} (accepted : ¬ fd < 0) {other : Fd} :
    (∃ sent ∈ sends ((Event.accept fd error).action.run server).output, sent.1 = other) ↔
      other = fd ∨ other ∈ server.registry.allFds := by
  change (∃ sent ∈ sends ((acceptClient fd error).run server).output, _) ↔ _
  rw [acceptClient_run accepted]
  change (∃ sent ∈ (fd, MsgType.assignId, _) :: sends (List.map _ _), _) ↔ _
  simp only [sends_map_send, List.mem_cons, List.mem_map, List.mem_filter, mem_allFds_enroll,
    decide_eq_true_eq]
  constructor
  · rintro ⟨sent, rfl | ⟨_, ⟨listed, apart⟩, rfl⟩, rfl⟩
    · exact .inl rfl
    · exact listed
  · intro listed
    by_cases same : other = fd
    · exact ⟨_, .inl rfl, same.symm⟩
    · exact ⟨_, .inr ⟨other, ⟨listed, same⟩, rfl⟩, rfl⟩

end Targets

theorem step_data_bannedIds (server : ServerViewModel) (fd : Fd) (incoming : Option Frame) :
    (step server (.data fd incoming)).bannedIds = server.bannedIds := by
  rcases step_data server fd incoming with same | dropped | ⟨nickname, -, -, renamed⟩
  · rw [same]
  · rw [dropped, drop_bannedIds]
  · rw [renamed]
    rfl

theorem disconnectClients_silent (fds : List Fd) (server : ServerViewModel) :
    sends ((disconnectClients fds).run server).output = [] := by
  induction fds generalizing server with
  | nil => rfl
  | cons fd fds ih =>
    simp only [disconnectClients, Action.run_bind, Action.run_get, Outcome.andThen_ok,
      Outcome.before_nil]
    rcases server.registry.remove fd with ⟨_ | record, registry⟩
    · exact ih server
    · exact ih _

section Banned

variable {server : ServerViewModel} {event : Event}
  (fits : ∀ fd record, server.registry.findByFd fd = some record → RecordFits fd record)

include fits in
theorem sent_of_announces {fd other : Fd} (announces : Announces server event fd)
    (apart : other ≠ fd) (listed : other ∈ server.registry.allFds) :
    ∃ sent ∈ sends (event.action.run server).output, sent.1 = other := by
  cases announces with
  | joined accepted => exact (mem_sends_accept accepted).mpr (.inr listed)
  | removed found =>
    exact (mem_sends_removal (removeClient_onlyRemoves fits found)).mpr ⟨listed, apart⟩
  | silenced found banned =>
    exact (mem_sends_removal (banned_onlyRemoves fits found banned rfl)).mpr ⟨listed, apart⟩
  | closed found running =>
    exact (mem_sends_removal (closed_onlyRemoves fits found running)).mpr ⟨listed, apart⟩
  | @named _ frame nickname decoded may =>
    obtain ⟨record, found, -⟩ := may.connected
    by_cases banned : record.id ∈ server.bannedIds
    · exact (mem_sends_removal (banned_onlyRemoves fits found banned rfl)).mpr ⟨listed, apart⟩
    · obtain ⟨bytes, -, parsed⟩ := decodeAppMessage_ok decoded
      have short := (decodeString_ok (decodePayload_register parsed).2).2
      have run : (Event.data fd (some frame)).action.run server =
          ((registerNickname fd nickname).run server).orElse (catchException fd) :=
        handleClientData_run (not_silenced found banned) decoded
      rw [run, registerNickname_run found may short, Outcome.orElse_ok, sends_display,
        sends_map_send]
      refine ⟨_, List.mem_map.mpr ⟨other, List.mem_filter.mpr ⟨?_, decide_eq_true apart⟩, rfl⟩, rfl⟩
      exact mem_allFds_rename.mpr listed

include fits in
theorem announces_of_sent (sound : server.registry.Sound) (may : Allowed server event) {fd : Fd}
    {record : ClientRecord} (found : server.registry.findByFd fd = some record)
    (banned : record.id ∈ (step server event).bannedIds) {sent : Fd × MsgType × Bytes}
    (member : sent ∈ sends (event.action.run server).output) (reaches : sent.1 = fd) :
    ∃ source, Announces server event source ∧ fd ≠ source ∧ record.id ∈ server.bannedIds := by
  have listed : fd ∈ server.registry.allFds := mem_allFds.mpr ⟨record, found⟩
  cases event with
  | accept client error =>
    by_cases failed : client < 0
    · have silent : sends ((Event.accept client error).action.run server).output = [] := by
        simp only [Event.action, acceptClient, if_pos failed]
        rfl
      simp [silent] at member
    · -- the descriptor is new, so the banned client is another one
      have apart : fd ≠ client := by
        rintro rfl
        exact absurd (may.fresh.symm.trans found) (by simp)
      rw [step_accept, if_neg failed] at banned
      refine ⟨client, .joined failed, apart, ?_⟩
      simpa only [ServerViewModel.enroll, allocateClientId_bannedIds] using banned
  | remove client =>
    rw [step_remove, drop_bannedIds] at banned
    cases present : server.registry.findByFd client with
    | none =>
      rw [show (Event.remove client).action.run server =
        _ from removeClient_missing present] at member
      simp [sends] at member
    | some removed =>
      have removal := removeClient_onlyRemoves fits present
      exact ⟨client, .removed present,
        ((mem_sends_removal removal).mp ⟨sent, member, reaches⟩).2, banned⟩
  | data client incoming =>
    rw [step_data_bannedIds] at banned
    cases present : server.registry.findByFd client with
    | none =>
      -- an answer to a stranger reaches nobody who is listed
      have apart : fd ≠ client := by
        rintro rfl
        simp [present] at found
      exact absurd (reaches.symm.trans (stranger_sent present member)) apart
    | some sender =>
      cases data_cases sound fits present incoming with
      | removed cause removal =>
        refine ⟨client, ?_, ((mem_sends_removal removal).mp ⟨sent, member, reaches⟩).2, banned⟩
        rcases cause with senderBanned | ⟨rfl, running⟩
        · exact .silenced present senderBanned
        · exact .closed present running
      | named arrived notBanned decoded mayRegister =>
        refine ⟨client, arrived ▸ .named decoded mayRegister, ?_, banned⟩
        rintro rfl
        exact notBanned (Option.some.inj (present.symm.trans found) ▸ banned)
      | answered notBanned same answers =>
        cases answers sent member with
        | refuses | lists =>
          obtain rfl : client = fd := reaches
          exact absurd (Option.some.inj (present.symm.trans found) ▸ banned) notBanned
        | passes short signed hears =>
          -- relaying asks for every target whether it is banned
          obtain ⟨hearer, here, free⟩ := hears
          obtain rfl := reaches
          exact absurd (Option.some.inj (here.symm.trans found) ▸ banned) free
  | ban ids =>
    -- the ids are banned before the message of the ban is sent
    rw [step_ban] at banned
    rcases banIds_sends ids server with silent | ⟨-, told⟩
    · simp [Event.action, silent] at member
    · change sent ∈ sends ((banIds ids).run server).output at member
      rw [told] at member
      obtain ⟨target, chosen, rfl⟩ := List.mem_map.mp member
      obtain ⟨client, here, free⟩ := of_decide_eq_true (List.mem_filter.mp chosen).2
      obtain rfl := Option.some.inj ((found.symm.trans (reaches ▸ rfl)).trans here)
      exact absurd banned (by simpa [ServerViewModel.isBanned] using free)
  | requestStop =>
    simp [Event.action, requestStop, sends, Effect.sent?] at member
  | disconnectAll =>
    rw [show (Event.disconnectAll).action.run server =
      (disconnectClients server.registry.allFds).run server from rfl,
        disconnectClients_silent] at member
    cases member

end Banned

def BannedUntold (server : ServerViewModel) (event : Event) : Prop :=
  ∀ fd record, server.registry.findByFd fd = some record →
    record.id ∈ (step server event).bannedIds →
      ∀ sent ∈ sends (event.action.run server).output, sent.1 ≠ fd

/-- At every step of every run, banned clients are left alone just when nothing is announced. -/
theorem bannedUntold_iff {server : ServerViewModel} {event : Event} (reachable : Reachable server)
    (may : Allowed server event) : BannedUntold server event ↔ Undisturbed server event := by
  have fits := reachable_recordFits reachable
  constructor
  · intro untold fd announces other record apart found banned
    obtain ⟨sent, member, reaches⟩ := sent_of_announces fits announces apart
      (mem_allFds.mpr ⟨record, found⟩)
    exact untold other record found (step_bannedIds server event banned) sent member reaches
  · intro undisturbed fd record found banned sent member reaches
    obtain ⟨source, announces, apart, before⟩ :=
      announces_of_sent fits (reachable_sound reachable) may found banned member reaches
    exact undisturbed source announces fd record apart found before

theorem firstBanned_reachable : Reachable firstBanned :=
  Runs.Reachable.foldl (.start rfl) (by decide +kernel)

theorem bannedUntold_iff_firstBanned :
    BannedUntold firstBanned (.data 4 (some (makeFrame .listUsers []))) := by
  have may : Allowed firstBanned (.data 4 (some (makeFrame .listUsers []))) := trivial
  refine (bannedUntold_iff firstBanned_reachable may).mpr fun fd announces => ?_
  have free : ∀ record ∈ firstBanned.registry.findByFd 4, record.id ∉ firstBanned.bannedIds := by
    decide +kernel
  have asked : decodeAppMessage (makeFrame .listUsers []) =
      .ok { type := .listUsers, payload := .listUsers } := by
    decide +kernel
  cases announces with
  | silenced found banned => exact absurd banned (free _ found)
  | named decoded => cases asked.symm.trans decoded

def bothBanned : ServerViewModel :=
  [Event.accept 3 "", .accept 4 "", .accept 5 "", .ban [1, 2]].foldl step {}

-- The first of them is removed, and the second is told so.
theorem bothBanned_told :
    Reachable bothBanned ∧ Allowed bothBanned (.remove 3) ∧
      ¬ BannedUntold bothBanned (.remove 3) := by
  refine ⟨Runs.Reachable.foldl (.start rfl) (by decide +kernel), trivial, fun untold => ?_⟩
  have connected : bothBanned.registry.findByFd 4 = some { fd := 4, id := 2 } := by decide +kernel
  have banned : 2 ∈ (step bothBanned (.remove 3)).bannedIds := by decide +kernel
  have told : (4, .userLeft, userBytes { id := 1, nickname := [] }) ∈
      sends ((Event.remove 3).action.run bothBanned).output := by
    decide +kernel
  exact untold 4 _ connected banned _ told rfl

end ModbusChat.Server
