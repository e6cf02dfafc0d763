import ModbusChat.Server.Routing

set_option autoImplicit false

namespace ModbusChat.Server

open BigEndian Effects Wire

theorem userJoined_run {nickname : Bytes} (short : nickname.length ≤ kMaxU16Count)
    (server : ServerViewModel) (id : UInt32) (exceptFd : Fd) :
    (PresenceBroadcaster.userJoined id nickname exceptFd).run server =
      ⟨server, (server.registry.allFds.filter (· ≠ exceptFd)).map fun fd =>
        .send fd .userJoined (userBytes { id, nickname }), .ok ()⟩ := by
  have encoded : encodeUserJoined id nickname = .ok (userBytes { id, nickname }) :=
    encodeUserInfo_eq_ok.mpr ⟨short, rfl⟩
  simp only [PresenceBroadcaster.userJoined, PresenceBroadcaster.broadcast, encoded,
    Action.run_bind, Action.run_lift, Action.run_get, Action.run_emitAll, Outcome.andThen_ok,
    Outcome.before_nil]

theorem userLeft_run {nickname : Bytes} (short : nickname.length ≤ kMaxU16Count)
    (server : ServerViewModel) (id : UInt32) :
    (PresenceBroadcaster.userLeft id nickname).run server =
      ⟨server, (server.registry.allFds.filter (· ≠ -1)).map fun fd =>
        .send fd .userLeft (userBytes { id, nickname }), .ok ()⟩ := by
  have encoded : encodeUserLeft id nickname = .ok (userBytes { id, nickname }) :=
    encodeUserInfo_eq_ok.mpr ⟨short, rfl⟩
  simp only [PresenceBroadcaster.userLeft, PresenceBroadcaster.broadcast, encoded, Action.run_bind,
    Action.run_lift, Action.run_get, Action.run_emitAll, Outcome.andThen_ok, Outcome.before_nil]

theorem removeClient_run {server : ServerViewModel} {fd : Fd} {record : ClientRecord}
    (found : server.registry.findByFd fd = some record)
    (short : record.nickname.length ≤ kMaxU16Count) :
    (removeClient fd).run server =
      ⟨server.drop fd,
        .display (.clientDisconnected record.id record.nickname) :: .close fd ::
          (((server.drop fd).registry.allFds.filter (· ≠ -1)).map fun other =>
            .send other .userLeft (userBytes { id := record.id, nickname := record.nickname })),
        .ok ()⟩ := by
  have removed := (ClientRegistry.remove_some found).1
  rw [drop_some found]
  simp only [removeClient, Action.run_bind, Action.run_get, Outcome.andThen_ok, Outcome.before_nil]
  generalize server.registry.remove fd = result at removed ⊢
  obtain ⟨_, registry⟩ := result
  obtain rfl := removed
  simp only [display, Action.run_bind, Action.run_emit, Action.run_modify, Outcome.andThen_ok,
    Outcome.before_mk, userLeft_run short, List.cons_append, List.nil_append]

theorem removeClient_missing {server : ServerViewModel} {fd : Fd}
    (missing : server.registry.findByFd fd = none) :
    (removeClient fd).run server = ⟨server, [], .ok ()⟩ := by
  simp only [removeClient, Action.run_bind, Action.run_get, Outcome.andThen_ok, Outcome.before_nil,
    ClientRegistry.remove_none missing, Action.run_pure]

theorem handleClientData_closed {server : ServerViewModel} {fd : Fd}
    (notBanned : ¬ ∃ sender ∈ server.registry.findByFd fd, server.isBanned sender.id) :
    (handleClientData fd none).run server =
      ((if server.running then removeClient fd else pure ()).run server).orElse
        (catchException fd) := by
  simp only [handleClientData, Action.run_tryCatch, Action.run_bind, Action.run_get,
    Outcome.andThen_ok, Outcome.before_nil, if_neg notBanned, receive, except_pure, Action.run_lift]

theorem handleClientData_banned {server : ServerViewModel} {fd : Fd} {sender : ClientRecord}
    (found : server.registry.findByFd fd = some sender)
    (short : sender.nickname.length ≤ kMaxU16Count) (banned : sender.id ∈ server.bannedIds)
    (incoming : Option Frame) :
    (handleClientData fd incoming).run server = (removeClient fd).run server := by
  have silenced : ∃ client ∈ server.registry.findByFd fd, server.isBanned client.id :=
    ⟨sender, found, by simpa [ServerViewModel.isBanned] using banned⟩
  simp only [handleClientData, Action.run_tryCatch, Action.run_bind, Action.run_get,
    Outcome.andThen_ok, Outcome.before_nil, if_pos silenced, removeClient_run found short,
    Outcome.orElse_ok]

theorem registerNickname_run {server : ServerViewModel} {fd : Fd} {record : ClientRecord}
    {nickname : Bytes} (found : server.registry.findByFd fd = some record)
    (may : MayRegister server fd nickname) (short : nickname.length ≤ kMaxU16Count) :
    (registerNickname fd nickname).run server =
      ⟨server.rename fd nickname,
        .display (.clientRegistered record.id nickname) ::
          (((server.rename fd nickname).registry.allFds.filter (· ≠ fd)).map fun other =>
            .send other .userJoined (userBytes { id := record.id, nickname })),
        .ok ()⟩ := by
  obtain ⟨client, here, free⟩ := may.connected
  obtain rfl := Option.some.inj (found.symm.trans here)
  simp only [registerNickname, Action.run_bind, Action.run_get, Outcome.andThen_ok, found,
    if_neg may.nonempty, if_neg may.notReserved, free, Bool.false_eq_true, if_false,
    Action.run_modify, display, Action.run_emit, userJoined_run short, Outcome.before_mk,
    List.cons_append, List.nil_append]
  rfl

theorem registerNickname_refused {server : ServerViewModel} {fd : Fd} {record : ClientRecord}
    {nickname : Bytes} (found : server.registry.findByFd fd = some record)
    (may : ¬ MayRegister server fd nickname) :
    ∃ text, (ascii text).length ≤ 64 ∧
      (registerNickname fd nickname).run server = (sendError fd (ascii text)).run server := by
  simp only [registerNickname, Action.run_bind, Action.run_get, Outcome.andThen_ok,
    Outcome.before_nil, found]
  split_ifs with empty reserved taken
  · exact ⟨_, by decide, rfl⟩
  · exact ⟨_, by decide, rfl⟩
  · exact ⟨_, by decide, rfl⟩
  · exact absurd ⟨⟨record, found, by simpa using taken⟩, empty, reserved⟩ may

theorem mem_allFds {registry : ClientRegistry} {fd : Fd} :
    fd ∈ registry.allFds ↔ ∃ record, registry.findByFd fd = some record :=
  Table.mem_iff_lookup

theorem findByFd_drop_eq (server : ServerViewModel) (fd other : Fd) :
    (server.drop fd).registry.findByFd other =
      if other = fd then none else server.registry.findByFd other := by
  cases present : server.registry.findByFd fd with
  | none =>
    rw [drop_none present]
    split_ifs with same
    · rw [same, present]
    · rfl
  | some removed =>
    rw [drop_some present, releaseClientId_registry, (ClientRegistry.remove_some present).2.1]

theorem mem_allFds_drop {server : ServerViewModel} {fd other : Fd} :
    other ∈ (server.drop fd).registry.allFds ↔ other ∈ server.registry.allFds ∧ other ≠ fd := by
  simp only [mem_allFds, findByFd_drop_eq]
  by_cases same : other = fd <;> simp [same]

theorem mem_allFds_rename {server : ServerViewModel} {fd other : Fd} {nickname : Bytes} :
    other ∈ (server.rename fd nickname).registry.allFds ↔ other ∈ server.registry.allFds := by
  simp only [mem_allFds, ServerViewModel.rename]
  cases present : server.registry.findByFd fd with
  | none => simp only [ClientRegistry.setNickname, present]
  | some record =>
    simp only [(ClientRegistry.setNickname_some nickname present).1]
    by_cases same : other = fd
    · simp [same, present]
    · simp [same]

theorem acceptClient_run {fd : Fd} (accepted : ¬ fd < 0) (server : ServerViewModel)
    (error : String) :
    (acceptClient fd error).run server =
      ⟨server.enroll fd,
        .watch fd :: .display (.clientConnected server.allocateClientId.1) ::
          .send fd .assignId
            (encodeAssignId server.allocateClientId.1 server.registry.allFds.isEmpty) ::
          (((server.enroll fd).registry.allFds.filter (· ≠ fd)).map fun other =>
            .send other .userJoined
              (userBytes { id := server.allocateClientId.1, nickname := [] })),
        .ok ()⟩ := by
  have short : ([] : Bytes).length ≤ kMaxU16Count := Nat.zero_le _
  simp only [acceptClient, if_neg accepted, send, display, Action.run_bind, Action.run_get,
    Action.run_modify, Action.run_emit, Outcome.andThen_ok, Outcome.before_nil,
    userJoined_run short]
  rfl

theorem findByFd_enroll (server : ServerViewModel) (fd other : Fd) :
    (server.enroll fd).registry.findByFd other =
      if other = fd then some { fd, id := server.allocateClientId.1 }
      else server.registry.findByFd other := by
  simp only [ServerViewModel.enroll, allocateClientId_registry, ClientRegistry.findByFd_add]

theorem findByFd_rename {server : ServerViewModel} {fd : Fd} {record : ClientRecord}
    (found : server.registry.findByFd fd = some record) (nickname : Bytes) (other : Fd) :
    (server.rename fd nickname).registry.findByFd other =
      if other = fd then some { record with nickname, registered := true }
      else server.registry.findByFd other :=
  (ClientRegistry.setNickname_some nickname found).1 other

theorem mem_allFds_enroll {server : ServerViewModel} {fd other : Fd} :
    other ∈ (server.enroll fd).registry.allFds ↔ other = fd ∨ other ∈ server.registry.allFds := by
  simp only [mem_allFds, ServerViewModel.enroll, allocateClientId_registry,
    ClientRegistry.findByFd_add]
  by_cases same : other = fd
  · simp [same]
  · simp [same]

theorem insertBans_bannedIds (ids : List UInt32) (server : ServerViewModel) :
    (insertBans ids server).2.bannedIds = server.bannedIds ∪ (ids.filter (· ≠ 0)).toFinset := by
  induction ids generalizing server with
  | nil => simp [insertBans]
  | cons id ids ih =>
    by_cases zero : id = 0
    · simpa [insertBans, zero] using ih server
    · simp only [insertBans, if_neg zero, ih]
      ext other
      simp [zero]

theorem insertBans_newly (ids : List UInt32) (server : ServerViewModel) :
    ∀ id ∈ (insertBans ids server).1, id ∈ ids ∧ id ≠ 0 := by
  induction ids generalizing server with
  | nil => simp [insertBans]
  | cons id ids ih =>
    intro other newly
    by_cases zero : id = 0
    · simp only [insertBans, if_pos zero] at newly
      exact (ih server other newly).imp_left (List.mem_cons_of_mem id)
    · simp only [insertBans, if_neg zero] at newly
      have first : other = id ∨ other ∈ (insertBans ids
          { server with
            bannedIds := insert id server.bannedIds
            freeIds := server.freeIds.erase id }).1 := by
        split_ifs at newly
        · exact .inr newly
        · exact List.mem_cons.mp newly
      rcases first with rfl | later
      · exact ⟨List.mem_cons_self, zero⟩
      · exact (ih _ other later).imp_left (List.mem_cons_of_mem id)

theorem sends_append (first second : List Effect) :
    sends (first ++ second) = sends first ++ sends second := List.filterMap_append

theorem sendError_sent {server : ServerViewModel} {fd : Fd} {text : Bytes}
    {sent : Fd × MsgType × Bytes} (member : sent ∈ sends ((sendError fd text).run server).output) :
    sent = (fd, .error, stringBytes text) := by
  rw [sendError_run] at member
  split_ifs at member
  · simpa [sends, Effect.sent?] using member
  · simp [sends] at member

theorem catchException_sent {server : ServerViewModel} {fd : Fd} {failure : Failure}
    {sent : Fd × MsgType × Bytes}
    (member : sent ∈ sends ((catchException fd failure).run server).output) :
    ∃ text, sent = (fd, .error, text) := by
  unfold catchException at member
  cases what : failure.what? with
  | none => simp [what, sends] at member
  | some what =>
    simp only [what, display, Action.run_bind, Action.run_emit, Outcome.andThen_ok,
      Outcome.before_output, List.cons_append, List.nil_append, sends_display] at member
    exact ⟨_, sendError_sent member⟩

theorem listUsers_sent {server : ServerViewModel} {fd : Fd} {message : AppMessage}
    {sent : Fd × MsgType × Bytes}
    (member : sent ∈ sends ((listUsersMessageHandler.handle fd message).run server).output) :
    ∃ payload, encodeUsersList server.registry.collectUsers = .ok payload ∧
      sent = (fd, .usersList, payload) := by
  simp only [listUsersMessageHandler, Action.run_bind, Action.run_get, Outcome.andThen_ok,
    Outcome.before_nil, Action.run_lift] at member
  cases encoded : encodeUsersList server.registry.collectUsers with
  | error failure => simp [encoded, sends] at member
  | ok payload =>
    simp only [encoded, Outcome.andThen_ok, Outcome.before_nil, send, Action.run_emit] at member
    exact ⟨payload, rfl, by simpa [sends, Effect.sent?] using member⟩

theorem caught_sent {server : ServerViewModel} {fd : Fd} {action : ServerM Unit}
    {property : Fd × MsgType × Bytes → Prop}
    (tried : ∀ sent ∈ sends (action.run server).output, property sent)
    (caught : ∀ text, property (fd, .error, text)) :
    ∀ sent ∈ sends ((action.run server).orElse (catchException fd)).output, property sent := by
  intro sent member
  generalize action.run server = outcome at tried member
  obtain ⟨state, output, failure | value⟩ := outcome
  · rw [Outcome.orElse_error, Outcome.before_output, sends_append, List.mem_append] at member
    rcases member with before | late
    · exact tried sent before
    · obtain ⟨text, rfl⟩ := catchException_sent late
      exact caught text
  · exact tried sent member

def idsBytes (ids : List UInt32) : Bytes :=
  writeU16Be (UInt16.ofNat ids.length) ++ ids.flatMap writeU32Be

def banRecipients (server : ServerViewModel) : List Fd :=
  server.registry.allFds.filter fun fd =>
    ∃ client ∈ server.registry.findByFd fd, ¬ server.isBanned client.id

theorem banIds_run (ids : List UInt32) (server : ServerViewModel) :
    (banIds ids).run server =
      let newlyBanned := (insertBans ids server).1
      let after := (insertBans ids server).2
      if newlyBanned = [] then
        ⟨after, [.display (.adminMessage (ascii "no new ids banned"))], .ok ()⟩
      else if newlyBanned.length ≤ kMaxU16Count then
        ⟨after,
          ((banRecipients after).map fun fd => .send fd .bannedIds (idsBytes newlyBanned)) ++
            ((newlyBanned.filterMap after.registry.fdById).map .shutdown ++
              [.display (.adminMessage (bannedMessage newlyBanned))]),
          .ok ()⟩
      else ⟨after, [], .error (.runtimeError "Too many banned ids")⟩ := by
  simp only [banIds, Action.run_bind, Action.run_get, Action.run_modify, Outcome.andThen_ok,
    Outcome.before_nil]
  generalize insertBans ids server = banned
  obtain ⟨newlyBanned, after⟩ := banned
  dsimp only
  split_ifs with nothing short
  · rfl
  · have encoded := encodeBannedIds_eq_ok.mpr ⟨short, rfl⟩
    simp only [broadcastBannedIds, encoded, Action.run_bind, Action.run_lift, Action.run_get,
      Action.run_emitAll, Outcome.andThen_ok, display, Action.run_emit, Outcome.before_mk]
    rfl
  · have refused : encodeBannedIds newlyBanned = .error (.runtimeError "Too many banned ids") := by
      simp [encodeBannedIds, Nat.lt_of_not_le short]
    simp only [broadcastBannedIds, refused, Action.run_bind, Action.run_lift, Outcome.andThen_error]

theorem sends_shutdowns (fds : List Fd) : sends (fds.map .shutdown) = [] := by
  simp [sends, List.filterMap_map, Function.comp_def, Effect.sent?]

theorem banIds_sends (ids : List UInt32) (server : ServerViewModel) :
    sends ((banIds ids).run server).output = [] ∨
      (insertBans ids server).1.length ≤ kMaxU16Count ∧
        sends ((banIds ids).run server).output =
          (server.registry.allFds.filter fun fd => ∃ client ∈ server.registry.findByFd fd,
            ¬ (insertBans ids server).2.isBanned client.id).map fun fd =>
              (fd, .bannedIds, writeU16Be (UInt16.ofNat (insertBans ids server).1.length) ++
                (insertBans ids server).1.flatMap writeU32Be) := by
  rw [banIds_run]
  dsimp only
  split_ifs with nothing short
  · exact .inl rfl
  · refine .inr ⟨short, ?_⟩
    rw [sends_append, sends_append, sends_shutdowns, sends_map_send, banRecipients,
      insertBans_registry]
    exact List.append_nil _
  · exact .inl rfl

end ModbusChat.Server
