import ModbusChat.System.News

set_option autoImplicit false

namespace ModbusChat.System

open BigEndian Effects Wire Client
open Server (Fd ServerViewModel ClientRecord ClientRegistry)

abbrev Roster := UInt32 → Option Bytes

def roster (registry : ClientRegistry) (fd : Fd) : Roster := fun id =>
  (registry.records.find? fun record => record.fd ≠ fd ∧ record.id = id).map ClientRecord.nickname

def Roster.hear (known : Roster) (packet : Packet) : Roster :=
  match decodeAppMessage packet.frame with
  | .ok { type := .userJoined, payload := .userJoined id nickname } =>
      fun other => if other = id then some nickname else known other
  | .ok { type := .userLeft, payload := .userLeft id _ } =>
      fun other => if other = id then none else known other
  | _ => known

section Roster

variable {registry after : ClientRegistry} {fd client : Fd}

theorem roster_ne_none {other : Fd} {record : ClientRecord}
    (found : registry.findByFd other = some record) (apart : record.fd ≠ fd) :
    roster registry fd record.id ≠ none := by
  intro absent
  have nobody := List.find?_eq_none.mp (Option.map_eq_none_iff.mp absent)
  exact nobody record (Table.mem_values.mpr ⟨other, found⟩) (decide_eq_true ⟨apart, rfl⟩)

theorem roster_eq_some (sound : registry.Sound) (complete : registry.Complete) {id : UInt32}
    {nickname : Bytes} :
    roster registry fd id = some nickname ↔ ∃ other record, other ≠ fd ∧
      registry.findByFd other = some record ∧ record.id = id ∧ record.nickname = nickname := by
  unfold roster
  rw [Server.find?_map_eq_some]
  · constructor
    · rintro ⟨record, member, holds, named⟩
      obtain ⟨apart, same⟩ := of_decide_eq_true holds
      exact ⟨record.fd, record, apart, (ClientRegistry.mem_records sound).mp member, same, named⟩
    · rintro ⟨other, record, apart, found, same, named⟩
      obtain rfl := sound.ownFd other record found
      exact ⟨record, (ClientRegistry.mem_records sound).mpr found,
        decide_eq_true ⟨apart, same⟩, named⟩
  · intro a first b second here there
    obtain ⟨-, sameId⟩ := of_decide_eq_true here
    obtain ⟨-, otherId⟩ := of_decide_eq_true there
    exact ClientRegistry.eq_of_id sound complete first second (sameId.trans otherId.symm)

variable (sound : registry.Sound) (complete : registry.Complete) (soundAfter : after.Sound)
  (completeAfter : after.Complete)
include sound complete soundAfter completeAfter

theorem roster_congr (same : ∀ other, other ≠ fd → after.findByFd other = registry.findByFd other) :
    roster after fd = roster registry fd := by
  funext id
  refine Option.ext fun nickname => ?_
  rw [roster_eq_some soundAfter completeAfter, roster_eq_some sound complete]
  refine exists_congr fun other => exists_congr fun record => and_congr_right fun apart => ?_
  rw [same other apart]

theorem roster_put {record : ClientRecord} (apart : fd ≠ client)
    (same : ∀ other, other ≠ client → after.findByFd other = registry.findByFd other)
    (now : after.findByFd client = some record)
    (before : ∀ old, registry.findByFd client = some old → old.id = record.id) :
    roster after fd = fun id => if id = record.id then some record.nickname
      else roster registry fd id := by
  funext id
  refine Option.ext fun nickname => ?_
  rw [roster_eq_some soundAfter completeAfter]
  split_ifs with mine
  · constructor
    · rintro ⟨other, found, -, here, sameId, named⟩
      obtain rfl := completeAfter.distinct now here (sameId.trans mine)
      obtain rfl := Option.some.inj (here.symm.trans now)
      rw [named]
    · intro named
      exact ⟨client, record, apart.symm, now, mine.symm, Option.some.inj named⟩
  · rw [roster_eq_some sound complete]
    refine exists_congr fun other => exists_congr fun found => and_congr_right fun _ => ?_
    by_cases moved : other = client
    · subst moved
      constructor
      · rintro ⟨here, sameId, -⟩
        obtain rfl := Option.some.inj (here.symm.trans now)
        exact absurd sameId.symm mine
      · rintro ⟨here, sameId, -⟩
        exact absurd (sameId.symm.trans (before found here)) mine
    · rw [same other moved]

theorem roster_drop {record : ClientRecord} (found : registry.findByFd client = some record)
    (apart : fd ≠ client)
    (same : ∀ other, after.findByFd other = if other = client then none
      else registry.findByFd other) :
    roster after fd = fun id => if id = record.id then none else roster registry fd id := by
  funext id
  refine Option.ext fun nickname => ?_
  rw [roster_eq_some soundAfter completeAfter]
  simp only [same]
  split_ifs with mine
  · simp only [iff_false]
    rintro ⟨other, here, -, listed, sameId, -⟩
    split_ifs at listed with moved
    exact moved (complete.distinct found listed (sameId.trans mine))
  · rw [roster_eq_some sound complete]
    refine exists_congr fun other => exists_congr fun here => and_congr_right fun _ => ?_
    split_ifs with moved
    · subst moved
      simp only [false_and, false_iff, not_and]
      rintro listed sameId -
      obtain rfl := Option.some.inj (listed.symm.trans found)
      exact mine sameId.symm
    · rfl

end Roster

theorem decode_userJoined {info : UserInfo} (short : info.nickname.length ≤ kMaxU16Count) :
    decodeAppMessage (Packet.mk .userJoined (userBytes info)).frame =
      .ok { type := .userJoined, payload := .userJoined info.id info.nickname } := by
  simp only [Packet.frame, decodeAppMessage_frame, decodePayload, decodeUserInfo_bytes short,
    ok_bind, except_pure]

theorem decode_userLeft {info : UserInfo} (short : info.nickname.length ≤ kMaxU16Count) :
    decodeAppMessage (Packet.mk .userLeft (userBytes info)).frame =
      .ok { type := .userLeft, payload := .userLeft info.id info.nickname } := by
  simp only [Packet.frame, decodeAppMessage_frame, decodePayload, decodeUserInfo_bytes short,
    ok_bind, except_pure]

theorem hear_plain (known : Roster) {packet : Packet} (notJoined : packet.type ≠ .userJoined)
    (notLeft : packet.type ≠ .userLeft) : Roster.hear known packet = known := by
  unfold Roster.hear
  rw [Packet.frame, decodeAppMessage_frame]
  cases decodePayload packet.payload packet.type with
  | error failure => rfl
  | ok payload =>
    simp only [ok_bind, except_pure]
    split <;> simp_all

theorem foldl_hear_plain (known : Roster) {packets : List Packet}
    (plain : ∀ packet ∈ packets, packet.type ≠ .userJoined ∧ packet.type ≠ .userLeft) :
    packets.foldl Roster.hear known = known := by
  induction packets with
  | nil => rfl
  | cons packet packets ih =>
    obtain ⟨first, rest⟩ := List.forall_mem_cons.mp plain
    rw [List.foldl_cons, hear_plain known first.1 first.2]
    exact ih rest

theorem News.hear {server : ServerViewModel} {event : Server.Event} {fd : Fd}
    (news : News server event fd)
    (fits : ∀ fd record, server.registry.findByFd fd = some record → Server.RecordFits fd record)
    (sound : server.registry.Sound) (complete : server.registry.Complete)
    (soundAfter : (Server.step server event).registry.Sound)
    (completeAfter : (Server.step server event).registry.Complete)
    (still : (Server.step server event).registry.findByFd fd ≠ none) :
    (inbox fd (event.action.run server).output).foldl Roster.hear (roster server.registry fd) =
      roster (Server.step server event).registry fd := by
  cases news with
  | @joined client vacant apart told after =>
    rw [told, after, List.foldl_cons, List.foldl_nil, Roster.hear,
      decode_userJoined (Nat.zero_le _)]
    rw [after] at soundAfter completeAfter
    have now := (Server.findByFd_enroll server client client).trans (if_pos rfl)
    refine (roster_put sound complete soundAfter completeAfter apart (fun other elsewhere => ?_)
      now ?_).symm
    · rw [Server.findByFd_enroll, if_neg elsewhere]
    · simp [vacant]
  | @left client record found apart told after =>
    rw [told, after, List.foldl_cons, List.foldl_nil, Roster.hear,
      decode_userLeft (fits client record found).short]
    rw [after] at soundAfter completeAfter
    exact (roster_drop sound complete soundAfter completeAfter found apart
      (Server.findByFd_drop_eq server client)).symm
  | @named client record nickname found apart asks may short told after =>
    rw [told, after, List.foldl_cons, List.foldl_nil, Roster.hear, decode_userJoined short]
    rw [after] at soundAfter completeAfter
    have now := (Server.findByFd_rename found nickname client).trans (if_pos rfl)
    refine (roster_put sound complete soundAfter completeAfter apart (fun other elsewhere => ?_)
      now ?_).symm
    · rw [Server.findByFd_rename found, if_neg elsewhere]
    · intro old here
      rw [Option.some.inj (here.symm.trans found)]
  | @renamed nickname asks may told after =>
    obtain ⟨record, found, -⟩ := may.connected
    rw [told, after]
    rw [after] at soundAfter completeAfter
    refine (roster_congr sound complete soundAfter completeAfter fun other apart => ?_).symm
    rw [Server.findByFd_rename found, if_neg apart]
  | plain same told =>
    rw [foldl_hear_plain _ fun packet member =>
      ⟨(told packet member).2.1, (told packet member).2.2.1⟩, same]
  | gone closed => exact absurd closed still

theorem News.unassigned {server : ServerViewModel} {event : Server.Event} {fd : Fd}
    (news : News server event fd) (still : (Server.step server event).registry.findByFd fd ≠ none) :
    ∀ packet ∈ inbox fd (event.action.run server).output, packet.type ≠ .assignId := by
  cases news with
  | joined now apart told | left found apart told | named found apart asks may short told
  | renamed asks may told =>
    simp [told]
  | plain same told => exact fun packet member => (told packet member).1
  | gone closed => exact absurd closed still

-- The server, and for each connection who else was there and what its client has been sent since.
structure Audience where
  server : ServerViewModel := {}
  welcomed : Fd → Roster := fun _ _ => none
  heard : Fd → List Packet := fun _ => []

def accepts (fd : Fd) : Server.Event → Bool
  | .accept client _ => client = fd
  | _ => false

namespace Audience

def step (audience : Audience) (event : Server.Event) : Audience :=
  let outcome := event.action.run audience.server
  { server := outcome.state
    welcomed := fun fd =>
      if accepts fd event then roster audience.server.registry fd else audience.welcomed fd
    heard := fun fd =>
      (if accepts fd event then [] else audience.heard fd) ++ inbox fd outcome.output }

def Initial (audience : Audience) : Prop := audience = {}

def Open (audience : Audience) (event : Server.Event) : Prop :=
  Server.Served audience.server event ∧ Server.IdsLeft audience.server event

-- What a client has been sent makes up for what it was not told, and begins with its id.
structure Informed (audience : Audience) (fd : Fd) (record : ClientRecord) : Prop where
  complete : (audience.heard fd).foldl Roster.hear (audience.welcomed fd) =
    roster audience.server.registry fd
  assigned : ∃ createRoom rest, audience.heard fd =
    { type := .assignId, payload := encodeAssignId record.id createRoom } :: rest ∧
      ∀ packet ∈ rest, packet.type ≠ .assignId

theorem Informed.next {audience : Audience} {event : Server.Event} {fd : Fd}
    {record later : ClientRecord} (informed : audience.Informed fd record)
    (others : accepts fd event = false) (sameId : later.id = record.id)
    (heard : (inbox fd (event.action.run audience.server).output).foldl Roster.hear
      (roster audience.server.registry fd) = roster (Server.step audience.server event).registry fd)
    (unassigned : ∀ packet ∈ inbox fd (event.action.run audience.server).output,
      packet.type ≠ .assignId) :
    (audience.step event).Informed fd later where
  complete := by
    simp only [step, others, Bool.false_eq_true, if_false, List.foldl_append, informed.complete,
      heard]
    rfl
  assigned := by
    obtain ⟨createRoom, rest, first, none⟩ := informed.assigned
    refine ⟨createRoom, rest ++ inbox fd (event.action.run audience.server).output, ?_, ?_⟩
    · simp only [step, others, Bool.false_eq_true, if_false, first, sameId, List.cons_append]
    · exact List.forall_mem_append.mpr ⟨none, unassigned⟩

theorem Informed.newcomer {audience : Audience} {fd : Fd} {error : String} (accepted : ¬ fd < 0)
    (sound : audience.server.registry.Sound) (complete : audience.server.registry.Complete)
    (soundAfter : (Server.step audience.server (.accept fd error)).registry.Sound)
    (completeAfter : (Server.step audience.server (.accept fd error)).registry.Complete) :
    (audience.step (.accept fd error)).Informed fd
      { fd, id := audience.server.allocateClientId.1 } := by
  have heard := accept_inbox accepted audience.server error fd
  rw [if_pos rfl] at heard
  have told : (audience.step (.accept fd error)).heard fd =
      [{ type := .assignId
         payload := encodeAssignId audience.server.allocateClientId.1
          audience.server.registry.allFds.isEmpty }] := by
    simpa [step, accepts, Server.Event.action] using heard
  have first : (audience.step (.accept fd error)).welcomed fd =
      roster audience.server.registry fd := by
    simp [step, accepts]
  refine ⟨?_, ?_⟩
  · rw [told, first, foldl_hear_plain _ (by simp)]
    refine (roster_congr sound complete soundAfter completeAfter fun other apart => ?_).symm
    rw [Server.step_accept, if_neg accepted, Server.findByFd_enroll, if_neg apart]
  · exact ⟨_, [], told, by simp⟩

theorem step_informed {audience : Audience} {event : Server.Event}
    (reachable : Runs.Reachable Server.Initial Server.IdsLeft Server.step audience.server)
    (may : audience.Open event)
    (informed : ∀ fd record, audience.server.registry.findByFd fd = some record →
      audience.Informed fd record) {fd : Fd} {later : ClientRecord}
    (now : (Server.step audience.server event).registry.findByFd fd = some later) :
    (audience.step event).Informed fd later := by
  have next := reachable.next may.2
  have allowed := reachable.weaken fun _ _ => Server.IdsLeft.allowed
  have sound := Server.reachable_sound allowed
  have complete := Server.reachable_complete reachable
  have soundAfter := Server.step_sound sound may.2.allowed
  have completeAfter := Server.reachable_complete next
  cases before : audience.server.registry.findByFd fd with
  | none =>
    -- only by being accepted does a client get here
    have elsewhere : event.connection? ≠ some fd := by
      intro touches
      obtain ⟨record, found⟩ := may.1.connected touches
      simp [before] at found
    by_cases accepted : ∃ error, event = .accept fd error
    · obtain ⟨error, rfl⟩ := accepted
      rw [Server.step_accept] at now
      split_ifs at now with failed
      · simp [before] at now
      · rw [Server.findByFd_enroll, if_pos rfl] at now
        obtain rfl := Option.some.inj now
        exact .newcomer failed sound complete soundAfter completeAfter
    · rw [Server.step_elsewhere may.1 elsewhere fun error same => accepted ⟨error, same⟩,
        before] at now
      cases now
  | some record =>
    have fits := Server.reachable_recordFits allowed
    have told := news sound fits may.1 before
    have still : (Server.step audience.server event).registry.findByFd fd ≠ none := by simp [now]
    refine (informed fd record before).next ?_ (Server.step_sameId may.1 before now)
      (told.hear fits sound complete soundAfter completeAfter still) (told.unassigned still)
    cases event with
    | accept client error =>
      refine decide_eq_false ?_
      rintro rfl
      exact absurd (may.2.1.fresh.symm.trans before) (by simp)
    | _ => rfl

end Audience

theorem presence_complete {audience : Audience} {fd : Fd} {record : ClientRecord}
    (reachable : Runs.Reachable Audience.Initial Audience.Open Audience.step audience)
    (connected : audience.server.registry.findByFd fd = some record) :
    audience.Informed fd record := by
  have all : Runs.Reachable Server.Initial Server.IdsLeft Server.step audience.server ∧
      ∀ fd record, audience.server.registry.findByFd fd = some record →
        audience.Informed fd record := by
    refine reachable.invariant (fun audience =>
      Runs.Reachable Server.Initial Server.IdsLeft Server.step
      audience.server ∧ ∀ fd record, audience.server.registry.findByFd fd = some record →
        audience.Informed fd record) ?_ ?_
    · rintro _ rfl
      refine ⟨.start rfl, fun fd record found => ?_⟩
      simp [ClientRegistry.findByFd] at found
    · rintro audience event ⟨served, informed⟩ may
      exact ⟨served.next may.2, fun fd record found =>
        Audience.step_informed served may informed found⟩
  exact all.2 fd record connected

-- Two clients come, the first takes a name twice, a third comes and the second goes.
def renamedBefore : Audience :=
  [Server.Event.accept 3 "", .accept 4 "",
    .data 3 (some (makeFrame .register (stringBytes (ascii "al")))),
    .accept 5 "", .data 3 (some (makeFrame .register (stringBytes (ascii "bo")))),
    .remove 4].foldl Audience.step {}

instance Audience.Open.decidable (audience : Audience) (event : Server.Event) :
    Decidable (audience.Open event) := inferInstanceAs (Decidable (_ ∧ _))

theorem presence_complete_renamedBefore :
    renamedBefore.Informed 5 { fd := 5, id := 3 } ∧
      roster renamedBefore.server.registry 5 1 = some (ascii "bo") ∧
      renamedBefore.welcomed 5 1 = some (ascii "al") := by
  have reachable : Runs.Reachable Audience.Initial Audience.Open Audience.step renamedBefore :=
    Runs.Reachable.foldl (.start rfl) (by decide +kernel)
  exact ⟨presence_complete reachable (by decide +kernel), by decide +kernel, by decide +kernel⟩

-- With every id but 0 banned, which the server never checks for, all new clients get id 0.

structure AllBanned (server : ServerViewModel) : Prop where
  banned : ∀ id, id ∈ server.bannedIds ↔ id ≠ 0
  free : server.freeIds.elements = []

theorem skipBanned_allBanned {banned : Finset UInt32} (all : ∀ id, id ∈ banned ↔ id ≠ 0)
    (fuel : Nat) (nextId : UInt32) (near : nextId = 0 ∨ 2 ^ 32 ≤ nextId.toNat + fuel) :
    Server.skipBanned banned fuel nextId = 0 := by
  induction fuel generalizing nextId with
  | zero =>
    have small := nextId.toNat_lt
    exact near.resolve_right (by omega)
  | succ fuel ih =>
    unfold Server.skipBanned
    by_cases zero : nextId = 0
    · rw [if_neg (by simp [all, zero]), zero]
    · rw [if_pos ((all nextId).mpr zero)]
      have far := near.resolve_left zero
      have next : (nextId + 1).toNat = (nextId.toNat + 1) % 2 ^ 32 := by
        rw [UInt32.toNat_add, UInt32.toNat_one]
      by_cases wraps : nextId.toNat + 1 = 2 ^ 32
      · refine ih _ (.inl (UInt32.toNat_inj.mp ?_))
        rw [next, wraps]
        rfl
      · have small := nextId.toNat_lt
        refine ih _ (.inr ?_)
        rw [next]
        omega

section AllBanned

variable {server : ServerViewModel} (all : AllBanned server)
include all

theorem AllBanned.allocate :
    server.allocateClientId.1 = 0 ∧ server.allocateClientId.2.freeIds.elements = [] := by
  obtain ⟨registry, nextId, ⟨elements, sorted⟩, bannedIds, running⟩ := server
  obtain rfl : elements = [] := all.free
  have many : 2 ^ 32 - 1 ≤ bannedIds.card := by
    refine Server.length_le_card bannedIds 1 (2 ^ 32) le_rfl fun id positive _ =>
      (all.banned id).mpr ?_
    rintro rfl
    simp at positive
  refine ⟨skipBanned_allBanned all.banned _ _ (or_iff_not_imp_left.mpr fun nonzero => ?_), rfl⟩
  have positive : nextId.toNat ≠ 0 := fun zero => nonzero (UInt32.toNat_inj.mp zero)
  change 2 ^ 32 ≤ nextId.toNat + bannedIds.card
  omega

theorem AllBanned.enroll (fd : Fd) : AllBanned (server.enroll fd) where
  banned id := by
    simpa only [ServerViewModel.enroll, Server.allocateClientId_bannedIds] using all.banned id
  free := all.allocate.2

theorem AllBanned.findByFd_enroll (fd other : Fd) :
    (server.enroll fd).registry.findByFd other =
      if other = fd then some { fd, id := 0 } else server.registry.findByFd other := by
  rw [Server.findByFd_enroll, all.allocate.1]

-- The index holds only the last of the clients that share an id.
theorem AllBanned.fdById_enroll (fd : Fd) : (server.enroll fd).registry.fdById 0 = some fd := by
  simp only [ServerViewModel.enroll, Server.allocateClientId_registry,
    Server.ClientRegistry.fdById_add, all.allocate.1, if_true]

end AllBanned

-- The ids of admin commands that together ban every id, each short enough to be announced.
def banEverything : List (List UInt32) :=
  (List.range (2 ^ 19)).map fun chunk =>
    (List.range (2 ^ 13)).map fun i => UInt32.ofNat (2 ^ 13 * chunk + i)

theorem mem_banEverything (id : UInt32) : ∃ ids ∈ banEverything, id ∈ ids := by
  have small := id.toNat_lt
  refine ⟨_, List.mem_map.mpr ⟨id.toNat / 2 ^ 13, List.mem_range.mpr (by omega), rfl⟩, ?_⟩
  refine List.mem_map.mpr ⟨id.toNat % 2 ^ 13, List.mem_range.mpr (by omega), ?_⟩
  rw [Nat.div_add_mod, UInt32.ofNat_toNat]

theorem allBanned_of_bans {lists : List (List UInt32)} (all : ∀ id, ∃ ids ∈ lists, id ∈ ids) :
    AllBanned ((lists.map Server.Event.ban).foldl Server.step {}) := by
  obtain ⟨-, free, banned⟩ := Server.foldl_ban lists {}
  refine ⟨fun id => ?_, List.eq_nil_iff_forall_not_mem.mpr fun id member => ?_⟩
  · rw [banned]
    simp [all id]
  · exact absurd (free id member) (OrderedSet.notMem_empty id)

theorem foldl_server (events : List Server.Event) (audience : Audience) :
    (events.foldl Audience.step audience).server = events.foldl Server.step audience.server := by
  induction events generalizing audience with
  | nil => rfl
  | cons event events ih => exact ih (audience.step event)

def crowd (audience : Audience) : Audience :=
  [Server.Event.accept 3 "", .accept 4 "", .accept 5 ""].foldl Audience.step audience

section Crowd

variable {audience : Audience} (all : AllBanned audience.server)
include all

theorem crowd_findByFd (fd : Fd) :
    (crowd audience).server.registry.findByFd fd =
      if fd = 3 ∨ fd = 4 ∨ fd = 5 then some { fd, id := 0 }
      else audience.server.registry.findByFd fd := by
  have accepted (server : ServerViewModel) (fd : Fd) (nonnegative : ¬ fd < 0) :
      Server.step server (.accept fd "") = server.enroll fd := by
    rw [Server.step_accept, if_neg nonnegative]
  have server : (crowd audience).server = ((audience.server.enroll 3).enroll 4).enroll 5 := by
    rw [crowd, foldl_server]
    simp only [List.foldl_cons, List.foldl_nil]
    rw [accepted _ 3 (by decide), accepted _ 4 (by decide), accepted _ 5 (by decide)]
  rw [server, (all.enroll 3).enroll 4 |>.findByFd_enroll 5, (all.enroll 3).findByFd_enroll 4,
    all.findByFd_enroll 3]
  by_cases five : fd = 5
  · simp [five]
  · by_cases four : fd = 4
    · simp [four]
    · by_cases three : fd = 3 <;> simp [three, four, five]

theorem crowd_uninformed
    (fits : ∀ fd record, (crowd audience).server.registry.findByFd fd = some record →
      Server.RecordFits fd record) :
    ¬ ((crowd audience).step (.remove 5)).Informed 3 { fd := 3, id := 0 } := by
  intro informed
  have gone : (crowd audience).server.registry.findByFd 5 = some { fd := 5, id := 0 } :=
    (crowd_findByFd all 5).trans (if_pos (by simp))
  have listening : (crowd audience).server.registry.findByFd 3 = some { fd := 3, id := 0 } :=
    (crowd_findByFd all 3).trans (if_pos (by simp))
  have told := inbox_removal (Server.removeClient_onlyRemoves fits gone) listening (by decide)
  have complete := congrFun informed.complete 0
  simp only [Audience.step, accepts, Bool.false_eq_true, if_false, List.foldl_append, told,
    List.foldl_cons, List.foldl_nil, Roster.hear, @decode_userLeft ⟨0, []⟩ (Nat.zero_le _),
    if_true] at complete
  -- the client of descriptor 4 has id 0 as well
  have present : (Server.step (crowd audience).server (.remove 5)).registry.findByFd 4 =
      some { fd := 4, id := 0 } := by
    rw [Server.step_remove, Server.findByFd_drop_eq, if_neg (by decide)]
    exact (crowd_findByFd all 4).trans (if_pos (by simp))
  exact roster_ne_none present (by decide) complete.symm

end Crowd

theorem run_bans (lists : List (List UInt32)) {audience : Audience}
    (reachable : Runs.Reachable Audience.Initial (fun audience => Server.Served audience.server)
      Audience.step audience) :
    Runs.Reachable Audience.Initial (fun audience => Server.Served audience.server) Audience.step
      ((lists.map Server.Event.ban).foldl Audience.step audience) := by
  induction lists generalizing audience with
  | nil => exact reachable
  | cons ids lists ih => exact ih (reachable.next trivial)

theorem server_reachable {audience : Audience}
    (reachable : Runs.Reachable Audience.Initial (fun audience => Server.Served audience.server)
      Audience.step audience) :
    Server.Reachable audience.server := by
  induction reachable with
  | start initial => exact .start (congrArg Audience.server initial)
  | next _ served ih => exact ih.next served.allowed

theorem crowd_reachable {audience : Audience} (empty : audience.server.registry = {})
    (reachable : Runs.Reachable Audience.Initial (fun audience => Server.Served audience.server)
      Audience.step audience) :
    Runs.Reachable Audience.Initial (fun audience => Server.Served audience.server) Audience.step
      (crowd audience) := by
  have vacant (server : ServerViewModel) (fd : Fd) (none : server.registry.findByFd fd = none) :
      Server.Served server (.accept fd "") := AList.lookup_eq_none.mp none
  have accepted (server : ServerViewModel) (fd : Fd) (nonnegative : ¬ fd < 0) (other : Fd) :
      (Server.step server (.accept fd "")).registry.findByFd other =
        if other = fd then some { fd, id := server.allocateClientId.1 }
        else server.registry.findByFd other := by
    rw [Server.step_accept, if_neg nonnegative, Server.findByFd_enroll]
  have nobody (fd : Fd) : audience.server.registry.findByFd fd = none := by
    rw [empty]
    rfl
  have second : (audience.step (.accept 3 "")).server.registry.findByFd 4 = none := by
    change (Server.step _ _).registry.findByFd 4 = none
    rw [accepted _ 3 (by decide), if_neg (by decide), nobody]
  have third :
      ((audience.step (.accept 3 "")).step (.accept 4 "")).server.registry.findByFd 5 = none := by
    change (Server.step (Server.step _ _) _).registry.findByFd 5 = none
    rw [accepted _ 4 (by decide), if_neg (by decide), accepted _ 3 (by decide), if_neg (by decide),
      nobody]
  exact ((reachable.next (vacant _ 3 (nobody 3))).next (vacant _ 4 second)).next (vacant _ 5 third)

-- Once every id is banned three clients come and one of them goes.
theorem crowd_incomplete (lists : List (List UInt32)) (all : ∀ id, ∃ ids ∈ lists, id ∈ ids) :
    let audience := (crowd ((lists.map Server.Event.ban).foldl Audience.step {})).step (.remove 5)
    Runs.Reachable Audience.Initial (fun audience => Server.Served audience.server) Audience.step
        audience ∧
      audience.server.registry.findByFd 3 = some { fd := 3, id := 0 } ∧
      ¬ audience.Informed 3 { fd := 3, id := 0 } := by
  have start := run_bans lists (.start rfl)
  have server := foldl_server (lists.map Server.Event.ban) {}
  have registry := (Server.foldl_ban lists {}).1
  have exhausted := allBanned_of_bans all
  generalize (lists.map Server.Event.ban).foldl Audience.step {} = audience at start server
  change audience.server = (lists.map Server.Event.ban).foldl Server.step {} at server
  rw [← server] at registry exhausted
  have reachable := crowd_reachable registry start
  have fits := Server.reachable_recordFits (server_reachable reachable)
  have leaving : (crowd audience).server.registry.findByFd 5 = some { fd := 5, id := 0 } :=
    (crowd_findByFd exhausted 5).trans (if_pos (by simp))
  refine ⟨reachable.next (Table.mem_iff_lookup.mpr ⟨_, leaving⟩), ?_,
    crowd_uninformed exhausted fits⟩
  change (Server.step _ _).registry.findByFd 3 = _
  rw [Server.step_remove, Server.findByFd_drop_eq, if_neg (by decide)]
  exact (crowd_findByFd exhausted 3).trans (if_pos (by simp))

theorem presence_incomplete :
    let audience :=
      (crowd ((banEverything.map Server.Event.ban).foldl Audience.step {})).step (.remove 5)
    Runs.Reachable Audience.Initial (fun audience => Server.Served audience.server) Audience.step
        audience ∧
      audience.server.registry.findByFd 3 = some { fd := 3, id := 0 } ∧
      ¬ audience.Informed 3 { fd := 3, id := 0 } :=
  crowd_incomplete banEverything mem_banEverything

end ModbusChat.System
