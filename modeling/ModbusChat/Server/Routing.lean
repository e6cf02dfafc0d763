import ModbusChat.Server.RegistryScan
import ModbusChat.Wire.Accepted

set_option autoImplicit false

namespace ModbusChat.Server

open BigEndian Effects Wire

def Effect.sent? : Effect → Option (Fd × MsgType × Bytes)
  | .send fd type payload => some (fd, type, payload)
  | _ => none

def Effect.line? : Effect → Option ViewLine
  | .display line => some line
  | _ => none

def sends (output : List Effect) : List (Fd × MsgType × Bytes) := output.filterMap Effect.sent?

def lines (output : List Effect) : List ViewLine := output.filterMap Effect.line?

theorem not_silenced {server : ServerViewModel} {fd : Fd} {sender : ClientRecord}
    (found : server.registry.findByFd fd = some sender) (notBanned : sender.id ∉ server.bannedIds) :
    ¬ ∃ client ∈ server.registry.findByFd fd, server.isBanned client.id := by
  simpa [found, ServerViewModel.isBanned] using notBanned

theorem handleClientData_run {server : ServerViewModel} {fd : Fd} {frame : Frame}
    {message : AppMessage}
    (notBanned : ¬ ∃ sender ∈ server.registry.findByFd fd, server.isBanned sender.id)
    (decoded : decodeAppMessage frame = .ok message) :
    (handleClientData fd (some frame)).run server =
      ((dispatch createMessageDispatcher fd message).run server).orElse (catchException fd) := by
  simp only [handleClientData, Action.run_tryCatch, Action.run_bind, Action.run_get,
    Outcome.andThen_ok, Outcome.before_nil, if_neg notBanned, receive, decoded, ok_bind,
    except_pure, Action.run_lift]

theorem handleClientData_undecoded {server : ServerViewModel} {fd : Fd} {frame : Frame}
    {failure : Failure}
    (notBanned : ¬ ∃ sender ∈ server.registry.findByFd fd, server.isBanned sender.id)
    (undecoded : decodeAppMessage frame = .error failure) :
    (handleClientData fd (some frame)).run server = (catchException fd failure).run server := by
  simp only [handleClientData, Action.run_tryCatch, Action.run_bind, Action.run_get,
    Outcome.andThen_ok, Outcome.before_nil, if_neg notBanned, receive, undecoded, error_bind,
    Action.run_lift, Outcome.andThen_error, Outcome.orElse_error]

theorem sendError_run (server : ServerViewModel) (fd : Fd) (text : Bytes) :
    (sendError fd text).run server =
      if text.length ≤ kMaxU16Count then ⟨server, [.send fd .error (stringBytes text)], .ok ()⟩
      else ⟨server, [], .error (.runtimeError "String too long")⟩ := by
  simp only [sendError, send, encodeError, encodeString, Action.run_bind, Action.run_lift]
  split_ifs with long short short
  · omega
  · rfl
  · rfl
  · omega

theorem catchException_reports {failure : Failure} {what : String}
    (text : failure.what? = some what)
    (short : (ascii what).length ≤ kMaxU16Count) (server : ServerViewModel) (fd : Fd) :
    (catchException fd failure).run server =
      ⟨server, [.display (.decodeError what), .send fd .error (stringBytes (ascii what))],
        .ok ()⟩ := by
  simp only [catchException, text, display, Action.run_bind, Action.run_emit,
    Outcome.andThen_ok, sendError_run, if_pos short, Outcome.before_mk, List.cons_append,
    List.nil_append]

theorem catchException_run (server : ServerViewModel) (fd : Fd) (what : String)
    (short : (ascii what).length ≤ kMaxU16Count) :
    (catchException fd (.runtimeError what)).run server =
      ⟨server, [.display (.decodeError what), .send fd .error (stringBytes (ascii what))],
        .ok ()⟩ :=
  catchException_reports rfl short server fd

-- The text that reaches the client: an error text that is too long is itself an error.
def errorText (text : Bytes) : Bytes :=
  if text.length ≤ kMaxU16Count then text else ascii "String too long"

def errorLines (text : Bytes) : List Effect :=
  if text.length ≤ kMaxU16Count then [] else [.display (.decodeError "String too long")]

theorem sendError_caught (server : ServerViewModel) (fd : Fd) (text : Bytes) :
    ((sendError fd text).run server).orElse (catchException fd) =
      ⟨server, errorLines text ++ [.send fd .error (stringBytes (errorText text))], .ok ()⟩ := by
  rw [sendError_run, errorLines, errorText]
  split_ifs with short
  · rfl
  · rw [Outcome.orElse_error, catchException_run _ _ _ (by decide)]
    rfl

-- What `recipient_label` prints for a recipient as clients write it.
def label : Recipient → Bytes
  | .byId id => toDecimal id
  | .byNickname nickname => nickname
  | .broadcast => kBroadcastRecipient

section Recipients

variable {chat : ChatPayload} {recipient : Recipient}

theorem recipientLabel_eq (tag : chat.recipientTag = recipient.tag)
    (data : recipient.data = .ok chat.recipientData) :
    ClientRegistry.recipientLabel chat = .ok (label recipient) := by
  unfold ClientRegistry.recipientLabel
  rw [tag]
  cases recipient with
  | byId id =>
    have bytes : writeU32Be id = chat.recipientData := Except.ok.inj data
    have read : readU32Be (writeU32Be id) = some id := by simpa using readU32Be_write id []
    simp [Recipient.tag, kRecipientById, kRecipientBroadcast, kUint32Size, ← bytes, read, label]
  | byNickname nickname =>
    obtain ⟨short, bytes⟩ := encodeString_eq_ok.mp data
    simp [Recipient.tag, kRecipientById, kRecipientByNickname, kRecipientBroadcast, bytes,
      decodeString_bytes short, label]
  | broadcast => simp [Recipient.tag, label]

theorem resolveRecipient_byId {id : UInt32} (registry : ClientRegistry)
    (tag : chat.recipientTag = kRecipientById) (data : chat.recipientData = writeU32Be id) :
    registry.resolveRecipient chat =
      .ok (if (registry.fdById id).isSome then some id else none) := by
  have read : readU32Be (writeU32Be id) = some id := by simpa using readU32Be_write id []
  simp [ClientRegistry.resolveRecipient, tag, data, kUint32Size, read]

theorem resolveRecipient_byNickname {nickname : Bytes} (registry : ClientRegistry)
    (tag : chat.recipientTag = kRecipientByNickname)
    (data : decodeString chat.recipientData = .ok nickname) :
    registry.resolveRecipient chat = .ok (registry.idByNickname nickname) := by
  simp [ClientRegistry.resolveRecipient, tag, kRecipientById, kRecipientByNickname, data]

end Recipients

theorem unicastTarget_ok {chat : ChatPayload} {recipient : Recipient} (server : ServerViewModel)
    (tag : chat.recipientTag = recipient.tag) (data : recipient.data = .ok chat.recipientData)
    (toLabel : Bytes) : ∃ target, unicastTarget server chat toLabel = .ok target := by
  obtain ⟨resolved, resolves⟩ : ∃ id, server.registry.resolveRecipient chat = .ok id := by
    cases recipient with
    | byId id => exact ⟨_, resolveRecipient_byId _ tag (Except.ok.inj data).symm⟩
    | byNickname nickname =>
      obtain ⟨short, bytes⟩ := encodeString_eq_ok.mp data
      exact ⟨_, resolveRecipient_byNickname _ tag (bytes ▸ decodeString_bytes short)⟩
    | broadcast =>
      exact ⟨none, by simp [ClientRegistry.resolveRecipient, tag, Recipient.tag, kRecipientById,
        kRecipientByNickname, kRecipientBroadcast]⟩
  simp only [unicastTarget, resolves, ok_bind]
  split
  · exact ⟨_, rfl⟩
  · split_ifs
    · exact ⟨_, rfl⟩
    · split <;> exact ⟨_, rfl⟩

def relayedTo (deliverType : MsgType) (fd : Fd) (deliver : Bytes) : Except Bytes Fd → List Effect
  | .error text => errorLines text ++ [.send fd .error (stringBytes (errorText text))]
  | .ok targetFd => [.send targetFd deliverType deliver]

section Relay

variable {server : ServerViewModel} {fd : Fd} {sender : ClientRecord} {chat : ChatPayload}
  {recipient : Recipient} {target : Except Bytes Fd} (deliverType : MsgType) (logLabel : String)
  (connected : server.registry.findByFd fd = some sender) (notBanned : sender.id ∉ server.bannedIds)
  (tag : chat.recipientTag = recipient.tag) (data : recipient.data = .ok chat.recipientData)
  (short : chat.text.length ≤ kMaxU16Count)
  (resolved : unicastTarget server chat (label recipient) = .ok target)
include connected notBanned tag data short resolved

-- Only an error message that is too long makes relaying throw.
theorem relay_run :
    (relay deliverType logLabel fd chat).run server =
      (if chat.recipientTag = kRecipientBroadcast then
        ⟨server, (broadcastTargets server fd).map fun targetFd =>
          .send targetFd deliverType (writeU32Be sender.id ++ stringBytes chat.text), .ok ()⟩
      else
        match target with
        | .error text => (sendError fd text).run server
        | .ok targetFd =>
            ⟨server, [.send targetFd deliverType (writeU32Be sender.id ++ stringBytes chat.text)],
              .ok ()⟩ : Outcome ServerViewModel Effect Failure Unit).before
        [.display (.chat sender.id (label recipient) logLabel)] := by
  have deliver : encodeDeliver sender.id chat.text =
      .ok (writeU32Be sender.id ++ stringBytes chat.text) := encodeDeliver_eq_ok.mpr ⟨short, rfl⟩
  simp only [relay, Action.run_bind, Action.run_get, Outcome.andThen_ok, Outcome.before_nil,
    connected, ServerViewModel.isBanned, decide_eq_true_eq, if_neg notBanned,
    recipientLabel_eq tag data, Action.run_lift, display, Action.run_emit]
  congr 1
  split_ifs with broadcast
  · simp only [Action.run_bind, Action.run_lift, deliver, Outcome.andThen_ok, Action.run_emitAll,
      Outcome.before_nil]
  · simp only [Action.run_bind, Action.run_lift, resolved, Outcome.andThen_ok, Outcome.before_nil]
    cases target with
    | error text => rfl
    | ok targetFd =>
      simp only [Action.run_bind, Action.run_lift, deliver, Outcome.andThen_ok, send,
        Action.run_emit, Outcome.before_nil]

theorem relay_caught :
    ((relay deliverType logLabel fd chat).run server).orElse (catchException fd) =
      ⟨server,
        .display (.chat sender.id (label recipient) logLabel) ::
          if chat.recipientTag = kRecipientBroadcast then
            (broadcastTargets server fd).map fun targetFd =>
              .send targetFd deliverType (writeU32Be sender.id ++ stringBytes chat.text)
          else relayedTo deliverType fd (writeU32Be sender.id ++ stringBytes chat.text) target,
        .ok ()⟩ := by
  rw [relay_run deliverType logLabel connected notBanned tag data short resolved,
    Outcome.before_orElse]
  split_ifs with broadcast
  · rfl
  · cases target with
    | error text =>
      dsimp only
      rw [sendError_caught]
      rfl
    | ok targetFd => rfl

end Relay

def deliverType : MsgType → MsgType
  | .chat => .deliver
  | .keyOffer => .peerKey
  | .roomKeyOffer => .roomKey
  | type => type

def logLabel : MsgType → String
  | .keyOffer => "KeyOffer"
  | .roomKeyOffer => "RoomKeyOffer"
  | _ => "Chat"

theorem dispatch_chat {type : MsgType} (fd : Fd) (chat : ChatPayload)
    (relayed : type = .chat ∨ type = .keyOffer ∨ type = .roomKeyOffer) :
    dispatch createMessageDispatcher fd { type, payload := .chat chat } =
      relay (deliverType type) (logLabel type) fd chat := by
  rcases relayed with rfl | rfl | rfl <;> rfl

-- The recipient of a message resolves to the connection of a client that is not banned.
def Resolves (server : ServerViewModel) (chat : ChatPayload) (targetFd : Fd) : Prop :=
  ∃ id, server.registry.resolveRecipient chat = .ok (some id) ∧ id ∉ server.bannedIds ∧
    server.registry.fdById id = some targetFd

def Names (chat : ChatPayload) (record : ClientRecord) : Prop :=
  chat.recipientTag = kRecipientById ∧ readU32Be chat.recipientData = some record.id ∨
  chat.recipientTag = kRecipientByNickname ∧ decodeString chat.recipientData = .ok record.nickname ∧
    record.nickname ≠ []

theorem unicastTarget_eq_ok {server : ServerViewModel} {chat : ChatPayload} {toLabel : Bytes}
    {targetFd : Fd} :
    unicastTarget server chat toLabel = .ok (.ok targetFd) ↔ Resolves server chat targetFd := by
  unfold unicastTarget Resolves ServerViewModel.isBanned
  cases resolved : server.registry.resolveRecipient chat with
  | error failure => simp
  | ok recipient =>
    cases recipient with
    | none => simp
    | some id =>
      simp only [ok_bind, decide_eq_true_eq, Except.ok.injEq, Option.some.injEq, exists_eq_left']
      split_ifs with banned
      · simp [banned]
      · cases server.registry.fdById id <;> simp [banned]

theorem Resolves.names {server : ServerViewModel} (sound : server.registry.Sound)
    {chat : ChatPayload} {targetFd : Fd} (resolves : Resolves server chat targetFd) :
    ∃ target, server.registry.findByFd targetFd = some target ∧ target.id ∉ server.bannedIds := by
  obtain ⟨id, resolved, notBanned, indexed⟩ := resolves
  obtain ⟨target, found, held⟩ := sound.byId id targetFd indexed
  exact ⟨target, found, held ▸ notBanned⟩

theorem resolves_iff_names {server : ServerViewModel} (sound : server.registry.Sound)
    (complete : server.registry.Complete) {chat : ChatPayload} {recipient : Recipient}
    (tag : chat.recipientTag = recipient.tag) (data : recipient.data = .ok chat.recipientData)
    (targetFd : Fd) :
    Resolves server chat targetFd ↔
      ∃ target, server.registry.findByFd targetFd = some target ∧ Names chat target ∧
        target.id ∉ server.bannedIds := by
  have byIdIff (id : UInt32) : server.registry.fdById id = some targetFd ↔
      ∃ target, server.registry.findByFd targetFd = some target ∧ target.id = id := by
    constructor
    · exact sound.byId id targetFd
    · rintro ⟨target, found, rfl⟩
      exact complete.byId targetFd target found
  cases recipient with
  | byId id =>
    have tag : chat.recipientTag = kRecipientById := tag
    have bytes : writeU32Be id = chat.recipientData := Except.ok.inj data
    have read : readU32Be chat.recipientData = some id :=
      bytes ▸ by simpa using readU32Be_write id []
    have names (target : ClientRecord) : Names chat target ↔ id = target.id := by
      simp [Names, tag, read, kRecipientById, kRecipientByNickname]
    simp only [Resolves, resolveRecipient_byId _ tag bytes.symm, names, Except.ok.injEq]
    constructor
    · rintro ⟨other, resolved, notBanned, indexed⟩
      obtain ⟨target, found, held⟩ := (byIdIff other).mp indexed
      split_ifs at resolved
      obtain rfl := Option.some.inj resolved
      exact ⟨target, found, held.symm, held ▸ notBanned⟩
    · rintro ⟨target, found, rfl, notBanned⟩
      have indexed := (byIdIff target.id).mpr ⟨target, found, rfl⟩
      exact ⟨target.id, by simp [indexed], notBanned, indexed⟩
  | byNickname nickname =>
    have tag : chat.recipientTag = kRecipientByNickname := tag
    obtain ⟨short, bytes⟩ := encodeString_eq_ok.mp data
    have decoded : decodeString chat.recipientData = .ok nickname :=
      bytes ▸ decodeString_bytes short
    have names (target : ClientRecord) :
        Names chat target ↔ nickname = target.nickname ∧ target.nickname ≠ [] := by
      simp [Names, tag, decoded, kRecipientById, kRecipientByNickname]
    simp only [Resolves, resolveRecipient_byNickname _ tag decoded, names, Except.ok.injEq]
    constructor
    · rintro ⟨id, resolved, notBanned, indexed⟩
      obtain ⟨nonempty, fd, owner, found, held, named⟩ := sound.byNickname nickname id resolved
      obtain ⟨target, here, same⟩ := (byIdIff id).mp indexed
      -- the name leads to an id and the id to a connection: both to one client
      obtain rfl := complete.distinct here found (held.trans same.symm)
      obtain rfl := Option.some.inj (found.symm.trans here)
      exact ⟨owner, found, ⟨named.symm, named ▸ nonempty⟩, held ▸ notBanned⟩
    · rintro ⟨target, found, ⟨rfl, nonempty⟩, notBanned⟩
      exact ⟨target.id, complete.byNickname targetFd target found nonempty, notBanned,
        complete.byId targetFd target found⟩
  | broadcast =>
    have tag : chat.recipientTag = kRecipientBroadcast := tag
    simp [Resolves, Names, ClientRegistry.resolveRecipient, tag, kRecipientById,
      kRecipientByNickname, kRecipientBroadcast]

theorem mem_broadcastTargets {server : ServerViewModel} {fd targetFd : Fd} :
    targetFd ∈ broadcastTargets server fd ↔
      targetFd ≠ fd ∧ ∃ target, server.registry.findByFd targetFd = some target ∧
        target.id ∉ server.bannedIds := by
  simp only [broadcastTargets, List.mem_filter, decide_eq_true_eq, ServerViewModel.isBanned,
    Option.mem_def, ClientRegistry.allFds]
  constructor
  · rintro ⟨-, apart, target⟩
    exact ⟨apart, target⟩
  · rintro ⟨apart, target, found, notBanned⟩
    exact ⟨Table.mem_iff_lookup.mpr ⟨target, found⟩, apart, target, found, notBanned⟩

theorem broadcastTargets_nodup (server : ServerViewModel) (fd : Fd) :
    (broadcastTargets server fd).Nodup :=
  server.registry.clientsByFd.keys_nodup.filter _

theorem handleClientData_chat {server : ServerViewModel} {fd : Fd} {sender : ClientRecord}
    {frame : Frame} {type : MsgType} {chat : ChatPayload}
    (connected : server.registry.findByFd fd = some sender)
    (notBanned : sender.id ∉ server.bannedIds)
    (decoded : decodeAppMessage frame = .ok { type, payload := .chat chat }) :
    ∃ (recipient : Recipient) (target : Except Bytes Fd),
      (chat.recipientTag = recipient.tag ∧ recipient.data = .ok chat.recipientData) ∧
      chat.text.length ≤ kMaxU16Count ∧
      unicastTarget server chat (label recipient) = .ok target ∧
      (handleClientData fd (some frame)).run server =
        ⟨server,
          .display (.chat sender.id (label recipient) (logLabel type)) ::
            if chat.recipientTag = kRecipientBroadcast then
              (broadcastTargets server fd).map fun targetFd =>
                .send targetFd (deliverType type) (writeU32Be sender.id ++ stringBytes chat.text)
            else
              relayedTo (deliverType type) fd
                (writeU32Be sender.id ++ stringBytes chat.text) target,
          .ok ()⟩ := by
  obtain ⟨payload, -, parsed⟩ := decodeAppMessage_ok decoded
  obtain ⟨relayed, chatDecoded⟩ := decodePayload_chat parsed
  obtain ⟨⟨recipient, tag, data⟩, short, -⟩ := decodeChatPayload_ok chatDecoded
  obtain ⟨target, resolved⟩ := unicastTarget_ok server tag data (label recipient)
  refine ⟨recipient, target, ⟨tag, data⟩, short, resolved, ?_⟩
  rw [handleClientData_run (not_silenced connected notBanned) decoded,
    dispatch_chat fd chat relayed]
  exact relay_caught _ _ connected notBanned tag data short resolved

@[simp] theorem sends_display (line : ViewLine) (output : List Effect) :
    sends (.display line :: output) = sends output := rfl

@[simp] theorem lines_display (line : ViewLine) (output : List Effect) :
    lines (.display line :: output) = line :: lines output := rfl

theorem sends_map_send (targets : List Fd) (type : MsgType) (payload : Bytes) :
    sends (targets.map fun fd => .send fd type payload) =
      targets.map fun fd => (fd, type, payload) := by
  simp [sends, List.filterMap_map, Function.comp_def, Effect.sent?]

theorem lines_map_send (targets : List Fd) (type : MsgType) (payload : Bytes) :
    lines (targets.map fun fd => .send fd type payload) = [] := by
  simp [lines, List.filterMap_map, Function.comp_def, Effect.line?]

theorem sends_relayedTo_error (deliverType : MsgType) (fd : Fd) (deliver text : Bytes) :
    sends (relayedTo deliverType fd deliver (.error text)) =
      [(fd, .error, stringBytes (errorText text))] := by
  simp only [relayedTo, errorLines]
  split_ifs <;> rfl

theorem relayed_alike (server : ServerViewModel) (toLabel : Bytes) {chat other : ChatPayload}
    {recipient otherRecipient : Recipient} (tag : chat.recipientTag = recipient.tag)
    (data : recipient.data = .ok chat.recipientData)
    (otherTag : other.recipientTag = otherRecipient.tag)
    (otherData : otherRecipient.data = .ok other.recipientData)
    (sameTag : other.recipientTag = chat.recipientTag)
    (sameData : other.recipientData = chat.recipientData) :
    label otherRecipient = label recipient ∧
      unicastTarget server other toLabel = unicastTarget server chat toLabel := by
  constructor
  · apply Except.ok.inj
    rw [← recipientLabel_eq otherTag otherData, ← recipientLabel_eq tag data]
    simp only [ClientRegistry.recipientLabel, sameTag, sameData]
  · simp only [unicastTarget, ClientRegistry.resolveRecipient, sameTag, sameData]

theorem sends_relayedTo_alike (deliverType : MsgType) (fd : Fd) (deliver otherDeliver : Bytes)
    (target : Except Bytes Fd) :
    (sends (relayedTo deliverType fd otherDeliver target)).map (fun sent => (sent.1, sent.2.1)) =
      (sends (relayedTo deliverType fd deliver target)).map (fun sent => (sent.1, sent.2.1)) ∧
    lines (relayedTo deliverType fd otherDeliver target) =
      lines (relayedTo deliverType fd deliver target) := by
  cases target with
  | error text => exact ⟨rfl, rfl⟩
  | ok targetFd => exact ⟨rfl, rfl⟩

/--
The routing law of a relayed message. `Resolves` is the registry's own resolution; while ids are
left it finds exactly the client that the message names.
-/
theorem relay_routes {server : ServerViewModel} {fd : Fd} {sender : ClientRecord} {frame : Frame}
    {type : MsgType} {chat : ChatPayload} (reachable : Reachable server)
    (connected : server.registry.findByFd fd = some sender)
    (notBanned : sender.id ∉ server.bannedIds)
    (decoded : decodeAppMessage frame = .ok { type, payload := .chat chat }) :
    let outcome := (handleClientData fd (some frame)).run server
    let relayed := writeU32Be sender.id ++ stringBytes chat.text
    decodePayload relayed (deliverType type) = .ok (.deliver sender.id chat.text) ∧
    (chat.recipientTag = kRecipientBroadcast → ∃ targets : List Fd, targets.Nodup ∧
      (∀ targetFd, targetFd ∈ targets ↔ targetFd ≠ fd ∧ ∃ target,
        server.registry.findByFd targetFd = some target ∧ target.id ∉ server.bannedIds) ∧
      sends outcome.output = targets.map fun targetFd => (targetFd, deliverType type, relayed)) ∧
    (chat.recipientTag ≠ kRecipientBroadcast →
      (∀ targetFd, Resolves server chat targetFd →
        (∃ target, server.registry.findByFd targetFd = some target ∧ target.id ∉ server.bannedIds) ∧
        sends outcome.output = [(targetFd, deliverType type, relayed)]) ∧
      ((∀ targetFd, ¬ Resolves server chat targetFd) →
        ∃ text, sends outcome.output = [(fd, .error, stringBytes text)])) ∧
    (Runs.Reachable Initial IdsLeft step server → ∀ targetFd, Resolves server chat targetFd ↔
      ∃ target, server.registry.findByFd targetFd = some target ∧ Names chat target ∧
        target.id ∉ server.bannedIds) ∧
    (outcome.state = server ∧ outcome.result = .ok ()) ∧
    ∀ (otherFrame : Frame) (other : ChatPayload),
      decodeAppMessage otherFrame = .ok { type, payload := .chat other } →
      other.recipientTag = chat.recipientTag → other.recipientData = chat.recipientData →
      let otherOutcome := (handleClientData fd (some otherFrame)).run server
      (sends otherOutcome.output).map (fun sent => (sent.1, sent.2.1)) =
        (sends outcome.output).map (fun sent => (sent.1, sent.2.1)) ∧
      lines otherOutcome.output = lines outcome.output := by
  have sound := reachable_sound reachable
  obtain ⟨recipient, target, ⟨tag, data⟩, short, resolved, run⟩ :=
    handleClientData_chat connected notBanned decoded
  obtain ⟨payload, -, parsed⟩ := decodeAppMessage_ok decoded
  obtain ⟨isRelayed, -⟩ := decodePayload_chat parsed
  dsimp only
  rw [run]
  refine ⟨?_, ?_, ?_, ?_, ⟨rfl, rfl⟩, ?_⟩
  · -- whatever is relayed goes out in the layout of a delivery
    rcases isRelayed with rfl | rfl | rfl <;> exact decodeDeliverPayload_bytes short sender.id
  · intro broadcast
    refine ⟨broadcastTargets server fd, broadcastTargets_nodup server fd,
      fun _ => mem_broadcastTargets, ?_⟩
    rw [if_pos broadcast, sends_display, sends_map_send]
  · intro unicast
    rw [if_neg unicast, sends_display]
    constructor
    · intro targetFd resolves
      obtain rfl : target = .ok targetFd :=
        Except.ok.inj (resolved.symm.trans (unicastTarget_eq_ok.mpr resolves))
      exact ⟨resolves.names sound, rfl⟩
    · intro unresolved
      cases target with
      | error text => exact ⟨_, sends_relayedTo_error _ _ _ _⟩
      | ok targetFd => exact absurd (unicastTarget_eq_ok.mp resolved) (unresolved targetFd)
  · intro left
    exact resolves_iff_names sound (reachable_complete left) tag data
  · -- the text plays no part in where a message goes, nor in what the server prints
    intro otherFrame other otherDecoded sameTag sameData
    obtain ⟨otherRecipient, otherTarget, ⟨otherTag, otherData⟩, -, otherResolved, otherRun⟩ :=
      handleClientData_chat connected notBanned otherDecoded
    obtain ⟨sameLabel, sameTarget⟩ :=
      relayed_alike server (label recipient) tag data otherTag otherData sameTag sameData
    obtain rfl : otherTarget = target := by
      rw [sameLabel, sameTarget, resolved] at otherResolved
      exact (Except.ok.inj otherResolved).symm
    rw [otherRun, sameLabel, sameTag]
    split_ifs with broadcast
    · simp [sends_map_send, lines_map_send]
    · obtain ⟨sameSends, sameLines⟩ := sends_relayedTo_alike (deliverType type) fd
        (writeU32Be sender.id ++ stringBytes chat.text)
        (writeU32Be sender.id ++ stringBytes other.text) otherTarget
      exact ⟨sameSends, by rw [lines_display, lines_display, sameLines]⟩

def twoClients : ServerViewModel := [Event.accept 3 "", .accept 4 ""].foldl step {}

-- A message from the first of two clients to the second, under a false sender id.
def spoofedFrame : Frame :=
  makeFrame .chat
    (writeU32Be 9 ++ (kRecipientById :: (writeU32Be 2 ++ (writeU16Be 2 ++ ascii "hi"))))

theorem relay_routes_spoofed :
    sends ((handleClientData 3 (some spoofedFrame)).run twoClients).output =
      [(4, .deliver, writeU32Be 1 ++ stringBytes (ascii "hi"))] := by
  have reachable : Reachable twoClients :=
    Runs.Reachable.foldl (.start (show Initial {} from rfl)) (by decide +kernel)
  have connected : twoClients.registry.findByFd 3 = some { fd := 3, id := 1 } := by decide +kernel
  have decoded : decodeAppMessage spoofedFrame = .ok ⟨.chat, .chat
      { fromId := 9, recipientTag := kRecipientById, recipientData := writeU32Be 2,
        text := ascii "hi" }⟩ := by decide +kernel
  have routed := relay_routes reachable connected (by decide +kernel) decoded
  exact ((routed.2.2.1 (by decide)).1 4
    ⟨2, by decide +kernel, by decide +kernel, by decide +kernel⟩).2

end ModbusChat.Server
