import ModbusChat.Server.AdminCommandParser
import ModbusChat.Server.Bans
import ModbusChat.Server.FrameBounds

set_option autoImplicit false

namespace ModbusChat.Server

open BigEndian Effects Wire

-- `ban_ids` updates the server before it knows that the ban can be announced.

def newIds (banned : Finset UInt32) (ids : List UInt32) : List UInt32 :=
  (ids.filter fun id => id ≠ 0 ∧ id ∉ banned).eraseDups

theorem insertBans_newIds (ids : List UInt32) (server : ServerViewModel) :
    (insertBans ids server).1 = newIds server.bannedIds ids := by
  induction ids generalizing server with
  | nil => rfl
  | cons id ids ih =>
    by_cases zero : id = 0
    · simp only [insertBans, if_pos zero, ih, newIds]
      rw [List.filter_cons_of_neg (by simp [zero])]
    · simp only [insertBans, if_neg zero, ih, ServerViewModel.isBanned, decide_eq_true_eq, newIds]
      split_ifs with banned
      · rw [Finset.insert_eq_of_mem banned, List.filter_cons_of_neg (by simp [banned])]
      · rw [List.filter_cons_of_pos (by simp [zero, banned]), List.eraseDups_cons,
          List.filter_filter]
        congr 3
        funext other
        rw [Bool.eq_iff_iff]
        simp only [Finset.mem_insert, not_or, decide_eq_true_eq, Bool.and_eq_true,
          Bool.not_eq_true', beq_eq_false_iff_ne]
        tauto

theorem mem_newIds {banned : Finset UInt32} {ids : List UInt32} {id : UInt32} :
    id ∈ newIds banned ids ↔ id ∈ ids ∧ id ≠ 0 ∧ id ∉ banned := by
  simp [newIds]

theorem insertBans_nothing {ids : List UInt32} {server : ServerViewModel}
    (apart : BannedNotFree server)
    (nothing : (insertBans ids server).1 = []) : (insertBans ids server).2 = server := by
  induction ids with
  | nil => rfl
  | cons id ids ih =>
    by_cases zero : id = 0
    · simp only [insertBans, if_pos zero] at nothing ⊢
      exact ih nothing
    · simp only [insertBans, if_neg zero] at nothing ⊢
      by_cases banned : id ∈ server.bannedIds
      · rw [Finset.insert_eq_of_mem banned,
          OrderedSet.erase_of_notMem (apart id banned)] at nothing ⊢
        refine ih ?_
        simpa [ServerViewModel.isBanned, banned] using nothing
      · simp [ServerViewModel.isBanned, banned] at nothing

def ReadsBack (payload : Bytes) (ids : List UInt32) : Prop :=
  WellFramed .bannedIds payload ∧
    decodeAppMessage (makeFrame .bannedIds payload) =
      .ok { type := .bannedIds, payload := .bannedIds ids }

theorem readsBack_iff {ids : List UInt32} (few : ids.length ≤ kMaxU16Count) :
    ReadsBack (idsBytes ids) ids ↔ ids.length ≤ 16382 := by
  have built : encodePayload .bannedIds (.bannedIds ids) = .ok (idsBytes ids) :=
    encodeBannedIds_eq_ok.mpr ⟨few, rfl⟩
  have size : (idsBytes ids).length = 2 + 4 * ids.length := by
    simp [idsBytes, List.length_flatMap]
    omega
  have decoded : decodeAppMessage (makeFrame .bannedIds (idsBytes ids)) =
      .ok { type := .bannedIds, payload := .bannedIds ids } := by
    have addressed : (AppPayload.bannedIds ids).Addressed := trivial
    rw [decodeAppMessage_frame, decodePayload_encodePayload addressed built, ok_bind, except_pure]
  rw [ReadsBack, wellFramed_iff built trivial, size, and_iff_left decoded]
  omega

/--
What a ban is for: the ids are banned, everyone left hears of it, and whoever held one is cut off.
-/
structure Announced (server : ServerViewModel) (ids : List UInt32) : Prop where
  returns : ((banIds ids).run server).result = .ok ()
  banned : (step server (.ban ids)).bannedIds = server.bannedIds ∪ (ids.filter (· ≠ 0)).toFinset
  notFree : ∀ id ∈ ids, id ≠ 0 → id ∉ (step server (.ban ids)).freeIds
  told : newIds server.bannedIds ids ≠ [] → ∃ (recipients : List Fd) (payload : Bytes),
    recipients.Nodup ∧
    (∀ fd, fd ∈ recipients ↔ ∃ record, server.registry.findByFd fd = some record ∧
      record.id ∉ (step server (.ban ids)).bannedIds) ∧
    sends ((banIds ids).run server).output = recipients.map (fun fd => (fd, .bannedIds, payload)) ∧
    (recipients ≠ [] → ReadsBack payload (newIds server.bannedIds ids))
  cutOff : ∀ fd, .shutdown fd ∈ ((banIds ids).run server).output ↔
    ∃ record, server.registry.findByFd fd = some record ∧ record.id ∈ newIds server.bannedIds ids
  nothing : newIds server.bannedIds ids = [] →
    sends ((banIds ids).run server).output = [] ∧ step server (.ban ids) = server

/--
The new ids fit into one message, unless nobody is left to read it, and the registry finds the
connection of whoever has a new id.
-/
structure BanFits (server : ServerViewModel) (ids : List UInt32) : Prop where
  few : (newIds server.bannedIds ids).length ≤ kMaxU16Count
  framed : (newIds server.bannedIds ids).length ≤ 16382 ∨
    ∀ fd record, server.registry.findByFd fd = some record →
      record.id ∈ server.bannedIds ∨ record.id ∈ ids ∧ record.id ≠ 0
  indexed : ∀ fd record, server.registry.findByFd fd = some record →
    record.id ∈ newIds server.bannedIds ids → server.registry.fdById record.id = some fd

section Announcing

variable {server : ServerViewModel} {ids : List UInt32}

theorem step_ban_bannedIds :
    (step server (.ban ids)).bannedIds = server.bannedIds ∪ (ids.filter (· ≠ 0)).toFinset := by
  rw [step_ban, insertBans_bannedIds]

theorem mem_banRecipients {fd : Fd} :
    fd ∈ banRecipients (insertBans ids server).2 ↔
      ∃ record, server.registry.findByFd fd = some record ∧
        record.id ∉ (step server (.ban ids)).bannedIds := by
  rw [step_ban, banRecipients, insertBans_registry]
  simp only [List.mem_filter, ServerViewModel.isBanned, decide_eq_true_eq, Option.mem_def,
    mem_allFds]
  constructor
  · exact fun member => member.2
  · rintro ⟨record, found, free⟩
    exact ⟨⟨record, found⟩, record, found, free⟩

theorem banRecipients_nodup (server : ServerViewModel) : (banRecipients server).Nodup :=
  server.registry.clientsByFd.keys_nodup.filter _

theorem banIds_told (new : newIds server.bannedIds ids ≠ [])
    (few : (newIds server.bannedIds ids).length ≤ kMaxU16Count) :
    sends ((banIds ids).run server).output =
      (banRecipients (insertBans ids server).2).map fun fd =>
        (fd, .bannedIds, idsBytes (newIds server.bannedIds ids)) := by
  have run := banIds_run ids server
  simp only [insertBans_newIds, if_neg new, if_pos few] at run
  rw [run, sends_append, sends_append, sends_shutdowns, sends_map_send]
  exact List.append_nil _

theorem mem_shutdowns (sound : server.registry.Sound) {fd : Fd} :
    fd ∈ (newIds server.bannedIds ids).filterMap server.registry.fdById ↔
      ∃ record, server.registry.findByFd fd = some record ∧
        record.id ∈ newIds server.bannedIds ids ∧ server.registry.fdById record.id = some fd := by
  rw [List.mem_filterMap]
  constructor
  · rintro ⟨id, newly, indexed⟩
    obtain ⟨record, found, rfl⟩ := sound.byId id fd indexed
    exact ⟨record, found, newly, indexed⟩
  · rintro ⟨record, -, newly, indexed⟩
    exact ⟨record.id, newly, indexed⟩

theorem BanFits.announced (reachable : Reachable server) (fits : BanFits server ids) :
    Announced server ids := by
  have run := banIds_run ids server
  simp only [insertBans_newIds, insertBans_registry] at run
  have sound := reachable_sound reachable
  refine ⟨?_, step_ban_bannedIds, ?_, fun new => ?_, fun fd => ?_, fun nothing => ?_⟩
  · rw [run]
    split_ifs with nothing short
    · rfl
    · rfl
    · exact absurd fits.few short
  · intro id member nonzero
    refine step_bannedNotFree (reachable_bannedNotFree reachable) _ id ?_
    rw [step_ban_bannedIds]
    simp [member, nonzero]
  · refine ⟨_, idsBytes (newIds server.bannedIds ids), banRecipients_nodup _,
      fun fd => mem_banRecipients, banIds_told new fits.few, fun someone => ?_⟩
    -- there is somebody to tell, so the message must fit a frame
    refine (readsBack_iff fits.few).mpr (fits.framed.resolve_right fun nobody => ?_)
    obtain ⟨fd, member⟩ := List.exists_mem_of_ne_nil _ someone
    obtain ⟨record, found, free⟩ := mem_banRecipients.mp member
    rw [step_ban_bannedIds] at free
    rcases nobody fd record found with old | ⟨listed, nonzero⟩
    · simp [old] at free
    · simp [listed, nonzero] at free
  · rw [run]
    split_ifs with nothing short
    · simp [nothing]
    · have cut : ∀ fd, fd ∈ (newIds server.bannedIds ids).filterMap server.registry.fdById ↔ _ :=
        fun fd => mem_shutdowns sound
      simp only [List.mem_append, List.mem_map, reduceCtorEq, and_false, exists_false, false_or,
        Effect.shutdown.injEq, exists_eq_right, List.mem_singleton, or_false, cut]
      constructor
      · rintro ⟨record, found, newly, -⟩
        exact ⟨record, found, newly⟩
      · rintro ⟨record, found, newly⟩
        exact ⟨record, found, newly, fits.indexed fd record found newly⟩
    · exact absurd fits.few short
  · rw [if_pos nothing] at run
    refine ⟨by rw [run]; rfl, ?_⟩
    rw [step_ban]
    exact insertBans_nothing (reachable_bannedNotFree reachable)
      (insertBans_newIds ids server ▸ nothing)

theorem Announced.fits (sound : server.registry.Sound) (announced : Announced server ids) :
    BanFits server ids := by
  have run := banIds_run ids server
  simp only [insertBans_newIds, insertBans_registry] at run
  by_cases nothing : newIds server.bannedIds ids = []
  · exact ⟨by simp [nothing], by simp [nothing], by simp [nothing]⟩
  -- with more ids the encoder throws, and the call does not return
  have few : (newIds server.bannedIds ids).length ≤ kMaxU16Count := by
    by_contra long
    rw [if_neg nothing, if_neg long] at run
    have returns := announced.returns
    rw [run] at returns
    cases returns
  rw [if_neg nothing, if_pos few] at run
  refine ⟨few, ?_, fun fd record found newly => ?_⟩
  · obtain ⟨recipients, payload, -, members, sent, readBack⟩ := announced.told nothing
    rw [banIds_told nothing few] at sent
    by_cases nobody : recipients = []
    · right
      intro fd record found
      by_contra free
      refine List.not_mem_nil (nobody ▸ (members fd).mpr ⟨record, found, ?_⟩)
      rw [step_ban_bannedIds]
      simpa using free
    · left
      obtain ⟨fd, member⟩ := List.exists_mem_of_ne_nil _ nobody
      have packet : (fd, MsgType.bannedIds, payload) ∈ recipients.map fun fd =>
          (fd, MsgType.bannedIds, payload) := List.mem_map.mpr ⟨fd, member, rfl⟩
      rw [← sent] at packet
      have same : payload = idsBytes (newIds server.bannedIds ids) := by
        obtain ⟨target, -, sameSent⟩ := List.mem_map.mp packet
        exact (Prod.mk.inj (Prod.mk.inj sameSent).2).2.symm
      exact (readsBack_iff few).mp (same ▸ readBack nobody)
  · have cut := (announced.cutOff fd).mpr ⟨record, found, newly⟩
    rw [run] at cut
    have member : fd ∈ (newIds server.bannedIds ids).filterMap server.registry.fdById := by
      simpa using cut
    obtain ⟨same, here, -, indexed⟩ := (mem_shutdowns sound).mp member
    rwa [Option.some.inj (here.symm.trans found)] at indexed

end Announcing

/-- From every state and for every list of ids, a ban does what it should just when it fits. -/
theorem ban_announced_iff {server : ServerViewModel} {ids : List UInt32}
    (reachable : Reachable server) :
    Announced server ids ↔ BanFits server ids :=
  ⟨fun announced => announced.fits (reachable_sound reachable),
    fun fits => fits.announced reachable⟩

theorem BanFits.of_idsLeft {server : ServerViewModel} {ids : List UInt32}
    (reachable : Runs.Reachable Initial IdsLeft step server)
    (few : (newIds server.bannedIds ids).length ≤ 16382) : BanFits server ids where
  few := few.trans (by decide)
  framed := .inl few
  indexed fd record found _ := (reachable_complete reachable).byId fd record found

def threeClients : ServerViewModel := [Event.accept 3 "", .accept 4 "", .accept 5 ""].foldl step {}

-- The second of three clients is banned, together with an id that nobody has.
theorem ban_announced_iff_threeClients : Announced threeClients [2, 0, 7, 2] := by
  have reachable : Runs.Reachable Initial IdsLeft step threeClients :=
    Runs.Reachable.foldl (.start rfl) (by decide +kernel)
  exact (ban_announced_iff (reachable.weaken fun _ _ => IdsLeft.allowed)).mpr
    (.of_idsLeft reachable (by decide +kernel))

theorem newIds_eq_self {ids : List UInt32} (distinct : ids.Nodup) (nonzero : 0 ∉ ids) :
    newIds ∅ ids = ids := by
  have kept : ids.filter (fun id => id ≠ 0 ∧ id ∉ (∅ : Finset UInt32)) = ids := by
    refine List.filter_eq_self.mpr fun id member => ?_
    simpa using fun zero : id = 0 => nonzero (zero ▸ member)
  rw [newIds, kept]
  clear kept nonzero
  induction ids with
  | nil => rfl
  | cons id ids ih =>
    obtain ⟨apart, distinct⟩ := List.nodup_cons.mp distinct
    have rest : ids.filter (fun other => !other == id) = ids := by
      refine List.filter_eq_self.mpr fun other member => ?_
      simpa using fun same : other = id => apart (same ▸ member)
    rw [List.eraseDups_cons, rest, ih distinct]

def tooMany : List UInt32 := (List.range 16383).map fun i => UInt32.ofNat (i + 2)

theorem mem_tooMany {id : UInt32} : id ∈ tooMany ↔ 2 ≤ id.toNat ∧ id.toNat < 16385 := by
  rw [tooMany, List.mem_map]
  constructor
  · rintro ⟨i, small, rfl⟩
    have := List.mem_range.mp small
    rw [UInt32.toNat_ofNat', Nat.mod_eq_of_lt (by omega)]
    omega
  · rintro ⟨low, high⟩
    refine ⟨id.toNat - 2, List.mem_range.mpr (by omega), ?_⟩
    rw [Nat.sub_add_cancel low, UInt32.ofNat_toNat]

theorem tooMany_nodup : tooMany.Nodup := by
  refine List.Nodup.map_on (fun i small j smaller same => ?_) List.nodup_range
  have nat := congrArg UInt32.toNat same
  have := List.mem_range.mp small
  have := List.mem_range.mp smaller
  rw [UInt32.toNat_ofNat', UInt32.toNat_ofNat', Nat.mod_eq_of_lt (by omega),
    Nat.mod_eq_of_lt (by omega)] at nat
  omega

def oneClient : ServerViewModel := [Event.accept 3 ""].foldl step {}

-- The only client is to be told of too many bans at once.
theorem tooMany_unannounced :
    Reachable oneClient ∧ parseAdminCommand (banLine tooMany) = some tooMany ∧
      ¬ Announced oneClient tooMany := by
  have nonzero : 0 ∉ tooMany := fun member => by simpa using (mem_tooMany.mp member).1
  have nonempty : tooMany ≠ [] := by simp [tooMany]
  have reachable : Reachable oneClient :=
    Runs.Reachable.foldl (.start rfl) (by decide +kernel)
  refine ⟨reachable, parseAdminCommand_banLine nonempty nonzero, fun announced => ?_⟩
  have none : oneClient.bannedIds = ∅ := by decide +kernel
  have connected : oneClient.registry.findByFd 3 = some { fd := 3, id := 1 } := by decide +kernel
  have fits := announced.fits (reachable_sound reachable)
  have size : (newIds oneClient.bannedIds tooMany).length = 16383 := by
    rw [none, newIds_eq_self tooMany_nodup nonzero, tooMany, List.length_map, List.length_range]
  rcases fits.framed with few | nobody
  · omega
  · rcases nobody 3 _ connected with banned | ⟨listed, -⟩
    · rw [none] at banned
      simp at banned
    · simpa using (mem_tooMany.mp listed).1

end ModbusChat.Server
